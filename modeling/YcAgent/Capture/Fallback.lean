import YcAgent.Executils.Background

/-!
# Captures with a primary and a fallback command

Five captures run a primary command and, where it fails, a fallback for it. Each finds the
failure and clears the file in its own way. The rule for all of them is stated over what the
commands come to: the output of the primary, or of the fallback alone. `top` follows it
always, `ps` where its first snapshot decides, the others where they notice the failure.
-/
namespace YcAgent.Capture.Fallback

open Go Executils Executils.Background

inductive Err where
  | text (s : GoString)
  | nonZeroExit
  | wrap (what : GoString) (err : Err)

/-- `errors.Is(err, ErrNonZeroExit)`. -/
def Err.isNonZeroExit : Err → Bool
  | .text _ => false
  | .nonZeroExit => true
  | .wrap _ err => err.isNonZeroExit

/-- Clears the file with its offset. -/
def reset (s : Session) : Session := { s with file := s.file.seekStart.truncate }

/-! ## The captures -/

def Top.captureOutput (w : World) (top top2 : Executils.Command) (s : Session) :
    Option (Option Err × Session) := do
  let (cmd, startErr, s) ← commandStartInBackgroundToWriter w top s
  let err := startErr.or cmd.wait
  if (err.isSome ∨ cmd.exitCode ≠ 0) ∧ 0 < top2.length then
    let (cmd, startErr, s) ← commandStartInBackgroundToWriter w top2 (reset s)
    match startErr with
    | some err => return (some (.text err), s)
    | none =>
      match cmd.wait with
      | some err => return (some (.wrap (str "both top commands failed") (.text err)), s)
      | none => return (none, s)
  else return (err.map .text, s)

def TopH.captureOutput (w : World) (topH topH2 : Executils.Command) (pid : Int) (s : Session) :
    Option (Option Err × Session) := do
  let command := addDynamicArg topH [itoa pid]
  let (cmd, startErr, s) ← commandStartInBackgroundToWriter w command s
  match startErr with
  | some err => return (some (.text err), s)
  | none =>
    let err := cmd.wait
    if cmd.exitCode ≠ 0 ∧ 0 < topH2.length then
      let fallbackCmd := append topH2 [itoa pid]
      let (cmd, startErr, s) ← commandStartInBackgroundToWriter w fallbackCmd (reset s)
      match startErr with
      | some err => return (some (.text err), s)
      | none =>
        match cmd.wait with
        | some err =>
          return (some (.wrap (str "both top dash H commands failed") (.text err)), s)
        | none => return (none, s)
    else return (err.map .text, s)

def scriptSpan : Nat := 120

def javacoreInterval : Nat := 30

/-- The line before a snapshot of `ps`. -/
def PS.timestamp (w : World) (s : Session) : GoString :=
  newline :: (w.now s.ran.length ++ [newline])

/-- The snapshots that are left, from the number `i` on. -/
def PS.snapshots (w : World) (psCmd : Executils.Command) : Nat → Nat → Session →
    Option (Option Err × Session)
  | _, 0, s => some (none, s)
  | i, n + 1, s => do
    let (err, s) ← commandCombinedOutputToWriter w psCmd
      { s with file := s.file.write (PS.timestamp w s) }
    match err with
    | some err =>
      let what := str "PS command failed during iteration " ++ itoa i
      return (some (.wrap what (.text err)), s)
    | none => PS.snapshots w psCmd (i + 1) n s

def PS.captureOutput (w : World) (ps ps2 : Executils.Command) (s : Session) :
    Option (Option Err × Session) := do
  let iterations := scriptSpan / javacoreInterval
  let (err, s) ← commandCombinedOutputToWriter w ps
    { s with file := s.file.write (PS.timestamp w s) }
  match err with
  | none => PS.snapshots w ps 2 (iterations - 2) s
  | some _ =>
    let s := reset s
    let (err, s) ← commandCombinedOutputToWriter w ps2
      { s with file := s.file.write (PS.timestamp w s) }
    match err with
    | some err => return (some (.wrap (str "both PS commands failed") (.text err)), s)
    | none => PS.snapshots w ps2 2 (iterations - 2) s

def DMesg.captureWithPrimaryCommand (w : World) (dmesg : Executils.Command) (s : Session) :
    Option (Option Err × Session) := do
  let (cmd, startErr, s) ← commandStartInBackgroundToWriter w dmesg s
  match startErr with
  | some err =>
    return (some (.wrap (str "failed to start primary dmesg command") (.text err)), s)
  | none =>
    if cmd.isSkipped then return (none, s)
    else
      match cmd.wait with
      | some err => return (some (.text err), s)
      | none => return (if cmd.exitCode ≠ 0 then some .nonZeroExit else none, s)

def DMesg.captureWithFallbackCommand (w : World) (dmesg2 : Executils.Command) (s : Session) :
    Option (Option Err × Session) := do
  let (cmd, startErr, s) ← commandStartInBackgroundToWriter w dmesg2 s
  match startErr with
  | some err =>
    return (some (.wrap (str "failed to start fallback dmesg command") (.text err)), s)
  | none =>
    if cmd.isSkipped then return (none, s)
    else
      match cmd.wait with
      | some err => return (some (.wrap (str "fallback command failed") (.text err)), s)
      | none => return (if cmd.exitCode ≠ 0 then some .nonZeroExit else none, s)

/-- Truncates before it seeks. -/
def DMesg.resetFile (s : Session) : Session := { s with file := s.file.truncate.seekStart }

def DMesg.captureOutput (w : World) (dmesg dmesg2 : Executils.Command) (s : Session) :
    Option (Option Err × Session) := do
  let (err, s) ← DMesg.captureWithPrimaryCommand w dmesg s
  match err with
  | none => return (none, s)
  | some err =>
    if err.isNonZeroExit then DMesg.captureWithFallbackCommand w dmesg2 (DMesg.resetFile s)
    else return (some err, s)

def vmstatCount : Nat := 5

def vmstatInterval : Nat := 5

/-- Whether the output is one of `vmstat`, and what is wrong with it. -/
def validateLinuxVMStatOutput (output : GoString) : Bool × GoString :=
  let lines := split (trimSpace output) newline
  if lines.length ≠ 2 + vmstatCount then
    (false, str "Expected " ++ itoa (2 + vmstatCount : Nat) ++ str " lines, got " ++
      itoa lines.length ++ str " lines")
  else if contains (lines.getD 0 []) (str "-memory-") = false then
    (false, str "First header line missing expected '-memory-' section")
  else if contains (lines.getD 1 []) (str "free") = false then
    (false, str "Second header line missing expected 'free' column")
  else if contains (lines.getD 1 []) (str "buff") = false then
    (false, str "Second header line missing expected 'buff' column")
  else
    match (lines.drop 2).findIdx? fun line => trimSpace line = [] with
    | some i => (false, str "Data line " ++ itoa (i + 1 : Nat) ++ str " is empty")
    | none => (true, [])

example : validateLinuxVMStatOutput (str "-memory-\nfree buff\n1\n2\n3\n4\n5\n") = (true, []) := by
  decide

/-- The command in `v.Cmd` comes back too, which stays as it is where none was started. -/
def VMStat.executeCommand (w : World) (cmd : Executils.Command) (vCmd : Option Manager)
    (s : Session) : Option (Option Err × Option Manager × Session) := do
  let (command, startErr, s) ← commandStartInBackgroundToWriter w cmd s
  match startErr with
  | some err => return (some (.wrap (str "failed to start command") (.text err)), vCmd, s)
  | none =>
    if command.isSkipped then return (none, some command, s)
    else if command.exitCode ≠ 0 then
      let text := str "vmstat: command failed with exit code: " ++ itoa command.exitCode
      return (some (.text text), some command, s)
    else
      match validateLinuxVMStatOutput command.output with
      | (true, _) => return (none, some command, s)
      | (false, errMsg) =>
        return (some (.text (str "vmstat: result validation failed: " ++ errMsg)), some command, s)

/-- Where the file cannot be read it is left as it is, with the offset behind what was read. -/
def VMStat.preserveOriginalOutput (w : World) (file : Handle Byte) : Handle Byte :=
  match w.readErr with
  | some (n, _) => (file.seekStart.read n).2
  | none => (file.seekStart.readAll).2.truncate.seekStart

/-- The agent in place of `vmstat`, with its two arguments. -/
def VMStat.vmstatMode (executable : GoString) : Executils.Command :=
  addDynamicArg
    [waitCommand, executable, str "-vmstatMode", dynamicArg, dynamicArg,
      str "| awk '\x7bcmd=\"(date +'%H:%M:%S')\"; cmd | getline now; " ++
        str "print now $0; fflush(); close(cmd)\x7d'"]
    [itoa vmstatInterval, itoa vmstatCount]

/-- Writing the failed command to the log panics where there is none. -/
def VMStat.fallbackCommand (w : World) (vCmd : Option Manager) (s : Session) :
    Option (Option Err × Session) := do
  let file := VMStat.preserveOriginalOutput w s.file
  let failedCmd ← vCmd
  let (err, _, s) ← VMStat.executeCommand w (VMStat.vmstatMode w.executable) (some failedCmd)
    { s with file }
  return (err, s)

/-- The first command to try. -/
def VMStat.command (vmState : Executils.Command) : Executils.Command :=
  addDynamicArg vmState [itoa vmstatInterval, itoa vmstatCount]

def VMStat.captureOutput (w : World) (vmState : Executils.Command) (s : Session) :
    Option (Option Err × Session) := do
  let (err, vCmd, s) ← VMStat.executeCommand w (VMStat.command vmState) none s
  match err with
  | some _ => VMStat.fallbackCommand w vCmd s
  | none => return (none, s)

/-! ## The rule -/

inductive Capturer where
  | top
  | topH (pid : Int)
  | ps
  | dmesg
  | vmstat

/-- The two commands of a capture, as they are configured; `vmstat` has a fallback of its own. -/
structure Commands where
  primary : Executils.Command
  fallback : Executils.Command

/-- A run of the capture on a new file; nothing where it panics. -/
def Capturer.captureOutput (c : Capturer) (k : Commands) (w : World) :
    Option (Option Err × Session) :=
  match c with
  | .top => Top.captureOutput w k.primary k.fallback Session.created
  | .topH pid => TopH.captureOutput w k.primary k.fallback pid Session.created
  | .ps => PS.captureOutput w k.primary k.fallback Session.created
  | .dmesg => DMesg.captureOutput w k.primary k.fallback Session.created
  | .vmstat => VMStat.captureOutput w k.primary Session.created

/-- The primary command, with its arguments. -/
def Capturer.primary (c : Capturer) (k : Commands) : Executils.Command :=
  match c with
  | .topH pid => addDynamicArg k.primary [itoa pid]
  | .vmstat => VMStat.command k.primary
  | _ => k.primary

def Capturer.fallback (c : Capturer) (k : Commands) (w : World) : Executils.Command :=
  match c with
  | .topH pid => append k.fallback [itoa pid]
  | .vmstat => VMStat.vmstatMode w.executable
  | _ => k.fallback

/-- How often a command is run; `ps` runs once for the two first snapshots of its span. -/
def Capturer.runs : Capturer → Nat
  | .ps => 1 + (scriptSpan / javacoreInterval - 2)
  | _ => 1

/-- What stands before the output of a command. -/
def Capturer.header (c : Capturer) (w : World) (n : Nat) : GoString :=
  match c with
  | .ps => newline :: (w.now n ++ [newline])
  | _ => []

/-- An end of a command that is none of a failure. -/
def Capturer.Accepts (c : Capturer) (exit : Exit) : Prop :=
  exit.code = 0 ∧
    match c with
    | .vmstat => (validateLinuxVMStatOutput exit.output).1 = true
    | _ => True

/-- What so many runs of a command write, from the `n`-th command on. -/
def Capturer.written (c : Capturer) (w : World) (cmd : Executils.Command) : Nat → Nat → GoString
  | _, 0 => []
  | n, m + 1 => c.header w n ++ (w.run n cmd).output ++ c.written w cmd (n + 1) m

section Rule

variable (c : Capturer) (w : World) (cmd : Executils.Command)

def GoesWell (n : Nat) : Prop := ∃ exit, w.result n cmd = some (.exits exit) ∧ c.Accepts exit

/-- The command cannot be started, or its end is not accepted. -/
def GoesWrong (n : Nat) : Prop :=
  ∃ run, w.result n cmd = some run ∧ ∀ exit, run = .exits exit → ¬ c.Accepts exit

/-- All runs of a command go well, from the `n`-th command on. -/
def Succeeds (n : Nat) : Prop := ∀ i < c.runs, GoesWell c w cmd (n + i)

/-- The run with the number `i` is the first one that goes wrong. -/
def FailsAt (i : Nat) : Prop :=
  i < c.runs ∧ (∀ j < i, GoesWell c w cmd j) ∧ GoesWrong c w cmd i

end Rule

/-- What a capture with a primary and a fallback is for: a primary that succeeds is run alone
and gives the file, and behind one that fails the fallback does. -/
structure FollowsRule (c : Capturer) (k : Commands) (w : World) : Prop where
  primary : Succeeds c w (c.primary k) 0 → ∃ s, c.captureOutput k w = some (none, s) ∧
    s.file.content = c.written w (c.primary k) 0 c.runs ∧
    s.ran = List.replicate c.runs (c.primary k)
  fallback : ∀ i, FailsAt c w (c.primary k) i → Succeeds c w (c.fallback k w) (i + 1) →
    ∃ s, c.captureOutput k w = some (none, s) ∧
      s.file.content = c.written w (c.fallback k w) (i + 1) c.runs

/-- The output of the primary can be read back, or nothing of it was read before the error and
the fallback writes over all of it. -/
def ReadsBack (w : World) (primary fallback : GoString) : Prop :=
  ∀ n err, w.readErr = some (n, err) →
    min n primary.length = 0 ∧ primary.length ≤ fallback.length

/-- The capture notices the failure of the primary's run `i` and can go on from it. -/
def Notices (c : Capturer) (k : Commands) (w : World) (i : Nat) : Prop :=
  match c with
  | .top => True
  | .topH _ => ∃ exit, w.run 0 (c.primary k) = .exits exit
  | .ps => i = 0
  | .dmesg => False
  | .vmstat => ∃ exit, w.run 0 (c.primary k) = .exits exit ∧
      ReadsBack w exit.output (w.run 1 (c.fallback k w)).output

/-- Every failure that the fallback could make up for is noticed. -/
def NoticesFailures (c : Capturer) (k : Commands) (w : World) : Prop :=
  ∀ i, FailsAt c w (c.primary k) i → Succeeds c w (c.fallback k w) (i + 1) → Notices c k w i

/-! ## What the commands come to -/

section Results

variable {c : Capturer} {k : Commands} {w : World} {cmd : Executils.Command}

theorem goesWrong_cases {n : Nat} (h : GoesWrong c w cmd n) :
    (∃ err, w.result n cmd = some (.fails err)) ∨
      ∃ exit, w.result n cmd = some (.exits exit) ∧ ¬ c.Accepts exit := by
  obtain ⟨run, hrun, hends⟩ := h
  cases run with
  | fails err => exact Or.inl ⟨err, hrun⟩
  | exits exit => exact Or.inr ⟨exit, hrun, hends exit rfl⟩

theorem succeeds_iff_of_runs_eq_one (hruns : c.runs = 1) {n : Nat} :
    Succeeds c w cmd n ↔ GoesWell c w cmd n := by
  unfold Succeeds
  rw [hruns]
  constructor
  · intro h
    exact h 0 Nat.one_pos
  · intro h i hi
    rw [Nat.lt_one_iff.mp hi]
    exact h

theorem failsAt_iff_of_runs_eq_one (hruns : c.runs = 1) {i : Nat} :
    FailsAt c w cmd i ↔ i = 0 ∧ GoesWrong c w cmd 0 := by
  unfold FailsAt
  rw [hruns]
  constructor
  · intro h
    obtain ⟨hi, -, hwrong⟩ := h
    have hzero := Nat.lt_one_iff.mp hi
    exact ⟨hzero, hzero ▸ hwrong⟩
  · intro h
    obtain ⟨rfl, hwrong⟩ := h
    exact ⟨Nat.one_pos, fun j hj => absurd hj (Nat.not_lt_zero j), hwrong⟩

theorem run_of_result {n : Nat} {run : Run} (h : w.result n cmd = some run) : w.run n cmd = run :=
  (result_eq_some_iff.mp h).2

/-- A capture that runs each command once follows the rule where its two commands give it what
the rule says. -/
theorem followsRule_iff_of_runs_eq_one (hruns : c.runs = 1)
    (hwell : ∀ exit, w.result 0 (c.primary k) = some (.exits exit) → c.Accepts exit →
      c.captureOutput k w =
        some (none, ⟨Handle.create.write (c.header w 0 ++ exit.output), [c.primary k]⟩))
    (hwrong : ∀ exit, GoesWrong c w (c.primary k) 0 →
      w.result 1 (c.fallback k w) = some (.exits exit) → c.Accepts exit →
      ((∃ s, c.captureOutput k w = some (none, s) ∧
        s.file.content = c.header w 1 ++ exit.output) ↔ Notices c k w 0)) :
    FollowsRule c k w ↔ NoticesFailures c k w := by
  have hwritten : ∀ n exit, w.result n (c.fallback k w) = some (.exits exit) →
      c.written w (c.fallback k w) n 1 = c.header w n ++ exit.output := by
    intro n exit hexit
    rw [Capturer.written, Capturer.written, run_of_result hexit, List.append_nil]
    rfl
  constructor
  · intro h i hfails hsucceeds
    obtain ⟨s, hs, hcontent⟩ := h.fallback i hfails hsucceeds
    obtain ⟨rfl, hbad⟩ := (failsAt_iff_of_runs_eq_one hruns).mp hfails
    obtain ⟨exit, hexit, haccepts⟩ := (succeeds_iff_of_runs_eq_one hruns).mp hsucceeds
    rw [hruns, hwritten _ exit hexit] at hcontent
    exact (hwrong exit hbad hexit haccepts).mp ⟨s, hs, hcontent⟩
  · intro h
    refine ⟨fun hsucceeds => ?_, fun i hfails hsucceeds => ?_⟩
    · obtain ⟨exit, hexit, haccepts⟩ := (succeeds_iff_of_runs_eq_one hruns).mp hsucceeds
      refine ⟨_, hwell exit hexit haccepts, ?_, ?_⟩
      · rw [hruns, Capturer.written, Capturer.written, run_of_result hexit, List.append_nil]
        exact Handle.content_write_create _
      · rw [hruns]
        rfl
    · have hnotices := h i hfails hsucceeds
      obtain ⟨rfl, hbad⟩ := (failsAt_iff_of_runs_eq_one hruns).mp hfails
      obtain ⟨exit, hexit, haccepts⟩ := (succeeds_iff_of_runs_eq_one hruns).mp hsucceeds
      rw [hruns, hwritten _ exit hexit]
      exact (hwrong exit hbad hexit haccepts).mpr hnotices

end Results

/-! ## The captures one by one -/

section Single

variable {w : World} {primary fallback : Executils.Command} {pid : Int} {exit : Exit}

/-- The fallback runs on a file that was cleared. -/
theorem start_reset (h : w.result 1 fallback = some (.exits exit)) (primary : Executils.Command)
    (file : Handle Byte) :
    commandStartInBackgroundToWriter w fallback (reset ⟨file, [primary]⟩) =
      some (.ended exit, none, ⟨Handle.create.write exit.output, [primary, fallback]⟩) :=
  start_exits h

theorem Top.captureOutput_well (h : w.result 0 primary = some (.exits exit))
    (hcode : exit.code = 0) :
    Top.captureOutput w primary fallback Session.created =
      some (none, ⟨Handle.create.write exit.output, [primary]⟩) := by
  have hstart := start_exits (s := Session.created) h
  simp [Top.captureOutput, hstart, Manager.wait, Manager.exitCode, hcode,
    Exit.waitErr_of_code hcode]

theorem Top.captureOutput_wrong (hwrong : GoesWrong .top w primary 0)
    (h : w.result 1 fallback = some (.exits exit)) (hcode : exit.code = 0) :
    Top.captureOutput w primary fallback Session.created =
      some (none, ⟨Handle.create.write exit.output, [primary, fallback]⟩) := by
  have hlen : 0 < fallback.length := Nat.not_lt.mp (length_of_result h)
  rcases goesWrong_cases hwrong with ⟨err, hprimary⟩ | ⟨first, hprimary, hbad⟩
  · have hstart := start_fails (s := Session.created) hprimary
    have hfallback := start_reset h primary Handle.create
    simp [Top.captureOutput, hstart, hlen, hfallback, Manager.wait, Exit.waitErr_of_code hcode]
  · have hstart := start_exits (s := Session.created) hprimary
    have hfallback := start_reset h primary (Handle.create.write first.output)
    have hfirst : first.code ≠ 0 := fun hzero => hbad ⟨hzero, trivial⟩
    simp [Top.captureOutput, hstart, hlen, hfallback, hfirst, Manager.wait, Manager.exitCode,
      Exit.waitErr_of_code hcode]

theorem TopH.captureOutput_well
    (h : w.result 0 (addDynamicArg primary [itoa pid]) = some (.exits exit))
    (hcode : exit.code = 0) :
    TopH.captureOutput w primary fallback pid Session.created =
      some (none, ⟨Handle.create.write exit.output, [addDynamicArg primary [itoa pid]]⟩) := by
  have hstart := start_exits (s := Session.created) h
  simp [TopH.captureOutput, hstart, Manager.wait, Manager.exitCode, hcode,
    Exit.waitErr_of_code hcode]

/-- A primary that cannot be started is not replaced. -/
theorem TopH.captureOutput_unstarted {err : GoString}
    (h : w.result 0 (addDynamicArg primary [itoa pid]) = some (.fails err)) :
    TopH.captureOutput w primary fallback pid Session.created =
      some (some (.text err), ⟨Handle.create, [addDynamicArg primary [itoa pid]]⟩) := by
  have hstart := start_fails (s := Session.created) h
  simp [TopH.captureOutput, hstart]

theorem TopH.captureOutput_wrong {first : Exit}
    (hprimary : w.result 0 (addDynamicArg primary [itoa pid]) = some (.exits first))
    (hfirst : first.code ≠ 0)
    (h : w.result 1 (append fallback [itoa pid]) = some (.exits exit)) (hcode : exit.code = 0) :
    TopH.captureOutput w primary fallback pid Session.created =
      some (none, ⟨Handle.create.write exit.output,
        [addDynamicArg primary [itoa pid], append fallback [itoa pid]]⟩) := by
  have hlen : 0 < fallback.length := by
    refine Nat.pos_of_ne_zero fun hzero => length_of_result h ?_
    rw [append, if_pos (by omega)]
    exact Nat.one_pos
  have hstart := start_exits (s := Session.created) hprimary
  have hfallback := start_reset h (addDynamicArg primary [itoa pid])
    (Handle.create.write first.output)
  simp [TopH.captureOutput, hstart, hlen, hfallback, hfirst, Manager.wait, Manager.exitCode,
    Exit.waitErr_of_code hcode]

theorem DMesg.captureOutput_well (h : w.result 0 primary = some (.exits exit))
    (hcode : exit.code = 0) :
    DMesg.captureOutput w primary fallback Session.created =
      some (none, ⟨Handle.create.write exit.output, [primary]⟩) := by
  have hstart := start_exits (s := Session.created) h
  simp [DMesg.captureOutput, DMesg.captureWithPrimaryCommand, hstart, Manager.isSkipped,
    Manager.wait, Manager.exitCode, hcode, Exit.waitErr_of_code hcode]

/-- The error of a primary is none that the capture looks for. -/
theorem DMesg.captureOutput_wrong (hwrong : GoesWrong .dmesg w primary 0)
    (fallback : Executils.Command) :
    ∃ err s, DMesg.captureOutput w primary fallback Session.created = some (some err, s) := by
  rcases goesWrong_cases hwrong with ⟨err, hprimary⟩ | ⟨first, hprimary, hbad⟩
  · have hstart := start_fails (s := Session.created) hprimary
    simp [DMesg.captureOutput, DMesg.captureWithPrimaryCommand, hstart, Err.isNonZeroExit]
  · have hstart := start_exits (s := Session.created) hprimary
    have hfirst : first.code ≠ 0 := fun hzero => hbad ⟨hzero, trivial⟩
    obtain ⟨err, herr⟩ := Exit.waitErr_of_code_ne hfirst
    simp [DMesg.captureOutput, DMesg.captureWithPrimaryCommand, hstart, Manager.isSkipped,
      Manager.wait, herr, Err.isNonZeroExit]

end Single

section Snapshots

variable {w : World} {cmd : Executils.Command}

/-- A snapshot that goes well is written behind the file. -/
theorem snapshot_well {s : Session} (hend : s.file.AtEnd)
    (h : GoesWell .ps w cmd s.ran.length) :
    ∃ file : Handle Byte, commandCombinedOutputToWriter w cmd
        { s with file := s.file.write (PS.timestamp w s) } =
        some (none, ⟨file, s.ran ++ [cmd]⟩) ∧ file.AtEnd ∧
      file.content = s.file.content ++ (Capturer.ps.header w s.ran.length ++
        (w.run s.ran.length cmd).output) := by
  obtain ⟨exit, hexit, hcode, -⟩ := h
  have hrun := combinedOutput_exits
    (s := { s with file := s.file.write (PS.timestamp w s) }) hexit
  rw [Exit.waitErr_of_code hcode] at hrun
  refine ⟨_, hrun, (hend.write _).write _, ?_⟩
  rw [(hend.write _).content_write, hend.content_write, run_of_result hexit, List.append_assoc]
  rfl

theorem snapshot_wrong {s : Session} (h : GoesWrong .ps w cmd s.ran.length) :
    ∃ (err : GoString) (file : Handle Byte), commandCombinedOutputToWriter w cmd
        { s with file := s.file.write (PS.timestamp w s) } =
        some (some err, ⟨file, s.ran ++ [cmd]⟩) := by
  rcases goesWrong_cases h with ⟨err, herr⟩ | ⟨exit, hexit, hbad⟩
  · exact ⟨err, _, combinedOutput_fails
      (s := { s with file := s.file.write (PS.timestamp w s) }) herr⟩
  · have hrun := combinedOutput_exits
      (s := { s with file := s.file.write (PS.timestamp w s) }) hexit
    have hcode : exit.code ≠ 0 := fun hzero => hbad ⟨hzero, trivial⟩
    obtain ⟨err, herr⟩ := Exit.waitErr_of_code_ne hcode
    rw [herr] at hrun
    exact ⟨_, _, hrun⟩

/-- Snapshots that all go well come one behind the other. -/
theorem snapshots_well {s : Session} (hend : s.file.AtEnd) {m : Nat}
    (h : ∀ j < m, GoesWell .ps w cmd (s.ran.length + j)) (i : Nat) :
    ∃ file : Handle Byte,
      PS.snapshots w cmd i m s = some (none, ⟨file, s.ran ++ List.replicate m cmd⟩) ∧
      file.content = s.file.content ++ Capturer.ps.written w cmd s.ran.length m := by
  induction m generalizing s i with
  | zero =>
    refine ⟨s.file, ?_, (List.append_nil _).symm⟩
    rw [PS.snapshots, List.replicate_zero, List.append_nil]
  | succ m ih =>
    obtain ⟨file, hrun, hfile, hcontent⟩ := snapshot_well hend (h 0 (Nat.succ_pos m))
    have hlen : (s.ran ++ [cmd]).length = s.ran.length + 1 := List.length_append
    obtain ⟨last, hlast, hwritten⟩ := ih (s := ⟨file, s.ran ++ [cmd]⟩) hfile
      (fun j hj => by
        rw [hlen, Nat.add_assoc, Nat.add_comm 1]
        exact h (j + 1) (Nat.succ_lt_succ hj)) (i + 1)
    refine ⟨last, ?_, ?_⟩
    · rw [PS.snapshots, hrun]
      show PS.snapshots w cmd (i + 1) m _ = _
      rw [hlast, List.replicate_succ, List.append_assoc, List.singleton_append]
    · rw [hwritten, hcontent, hlen, Capturer.written, List.append_assoc]

/-- A snapshot that goes wrong ends the capture. -/
theorem snapshots_wrong {s : Session} (hend : s.file.AtEnd) {m j : Nat} (hj : j < m)
    (hwell : ∀ j' < j, GoesWell .ps w cmd (s.ran.length + j'))
    (hwrong : GoesWrong .ps w cmd (s.ran.length + j)) (i : Nat) :
    ∃ err s', PS.snapshots w cmd i m s = some (some err, s') := by
  induction m generalizing s i j with
  | zero => exact absurd hj (Nat.not_lt_zero j)
  | succ m ih =>
    cases j with
    | zero =>
      obtain ⟨err, file, hrun⟩ := snapshot_wrong hwrong
      let what := str "PS command failed during iteration " ++ itoa i
      refine ⟨.wrap what (.text err), ⟨file, s.ran ++ [cmd]⟩, ?_⟩
      rw [PS.snapshots, hrun]
      rfl
    | succ j =>
      obtain ⟨file, hrun, hfile, -⟩ := snapshot_well hend (hwell 0 (Nat.succ_pos j))
      have hlen : (s.ran ++ [cmd]).length = s.ran.length + 1 := List.length_append
      have hshift : ∀ n, s.ran.length + 1 + n = s.ran.length + (n + 1) := by omega
      obtain ⟨err, s', hlast⟩ := ih (s := ⟨file, s.ran ++ [cmd]⟩) hfile
        (Nat.lt_of_succ_lt_succ hj)
        (fun j' hj' => by
          rw [hlen, hshift]
          exact hwell (j' + 1) (Nat.succ_lt_succ hj'))
        (by rwa [hlen, hshift]) (i + 1)
      refine ⟨err, s', ?_⟩
      rw [PS.snapshots, hrun]
      exact hlast

/-- Behind a first snapshot that goes well the capture only has the rest to do. -/
theorem PS.captureOutput_eq (h : GoesWell .ps w cmd 0) (fallback : Executils.Command) :
    PS.captureOutput w cmd fallback Session.created =
      PS.snapshots w cmd 1 (scriptSpan / javacoreInterval - 2 + 1) Session.created := by
  obtain ⟨file, hrun, -⟩ := snapshot_well (s := Session.created) Handle.atEnd_create h
  rw [PS.captureOutput, PS.snapshots, hrun]
  rfl

theorem PS.captureOutput_eq_fallback {fallback : Executils.Command} (hwrong : GoesWrong .ps w cmd 0)
    (h : GoesWell .ps w fallback 1) :
    PS.captureOutput w cmd fallback Session.created =
      PS.snapshots w fallback 1 (scriptSpan / javacoreInterval - 2 + 1)
        ⟨Handle.create, [cmd]⟩ := by
  obtain ⟨err, file, hfirst⟩ := snapshot_wrong (s := Session.created) hwrong
  obtain ⟨last, hrun, -⟩ := snapshot_well (s := ⟨Handle.create, [cmd]⟩) Handle.atEnd_create h
  have hreset : reset ⟨file, Session.created.ran ++ [cmd]⟩ = ⟨Handle.create, [cmd]⟩ := rfl
  rw [PS.captureOutput, PS.snapshots, hfirst, hrun]
  simp only [Option.bind_eq_bind, Option.bind_some, hreset, hrun]

end Snapshots

section VMStat

variable {w : World} {cmd : Executils.Command} {s : Session}

theorem VMStat.executeCommand_fails {err : GoString}
    (h : w.result s.ran.length cmd = some (.fails err)) (vCmd : Option Manager) :
    VMStat.executeCommand w cmd vCmd s =
      some (some (.wrap (str "failed to start command") (.text err)), vCmd,
        ⟨s.file, s.ran ++ [cmd]⟩) := by
  rw [VMStat.executeCommand, start_fails h]
  rfl

theorem VMStat.executeCommand_well {exit : Exit}
    (h : w.result s.ran.length cmd = some (.exits exit))
    (haccepts : Capturer.vmstat.Accepts exit) (vCmd : Option Manager) :
    VMStat.executeCommand w cmd vCmd s =
      some (none, some (.ended exit), ⟨s.file.write exit.output, s.ran ++ [cmd]⟩) := by
  obtain ⟨hcode, hvalid⟩ := haccepts
  rw [VMStat.executeCommand, start_exits h]
  simp only [Option.bind_eq_bind, Option.bind_some, Manager.isSkipped, Manager.exitCode,
    Manager.output, hcode]
  cases hcheck : validateLinuxVMStatOutput exit.output with
  | mk valid errMsg =>
    have htrue : valid = true := by rw [hcheck] at hvalid; exact hvalid
    rw [htrue]
    rfl

theorem VMStat.executeCommand_wrong {exit : Exit}
    (h : w.result s.ran.length cmd = some (.exits exit))
    (hbad : ¬ Capturer.vmstat.Accepts exit) (vCmd : Option Manager) :
    ∃ err, VMStat.executeCommand w cmd vCmd s =
      some (some err, some (.ended exit), ⟨s.file.write exit.output, s.ran ++ [cmd]⟩) := by
  rw [VMStat.executeCommand, start_exits h]
  simp only [Option.bind_eq_bind, Option.bind_some, Manager.isSkipped, Manager.exitCode,
    Manager.output]
  by_cases hcode : exit.code = 0
  · cases hcheck : validateLinuxVMStatOutput exit.output with
    | mk valid errMsg =>
      have hfalse : valid = false := by
        refine Bool.eq_false_iff.mpr fun htrue => hbad ⟨hcode, ?_⟩
        rw [hcheck]
        exact htrue
      simp [hcode, hfalse]
  · simp [hcode]

theorem VMStat.captureOutput_well {exit : Exit} {vmState : Executils.Command}
    (h : w.result 0 (VMStat.command vmState) = some (.exits exit))
    (haccepts : Capturer.vmstat.Accepts exit) :
    VMStat.captureOutput w vmState Session.created =
      some (none, ⟨Handle.create.write exit.output, [VMStat.command vmState]⟩) := by
  have hrun := VMStat.executeCommand_well (s := Session.created) h haccepts none
  show (VMStat.executeCommand w _ none Session.created).bind _ = _
  rw [hrun]
  rfl

/-- A primary that cannot be started leaves no command to write to the log. -/
theorem VMStat.captureOutput_unstarted {err : GoString} {vmState : Executils.Command}
    (h : w.result 0 (VMStat.command vmState) = some (.fails err)) :
    VMStat.captureOutput w vmState Session.created = none := by
  have hrun := VMStat.executeCommand_fails (s := Session.created) h none
  show (VMStat.executeCommand w _ none Session.created).bind _ = _
  rw [hrun]
  rfl

/-- The file of the fallback, which writes where the reading of the file left off. -/
theorem VMStat.captureOutput_wrong {first exit : Exit} {vmState : Executils.Command}
    (hprimary : w.result 0 (VMStat.command vmState) = some (.exits first))
    (hbad : ¬ Capturer.vmstat.Accepts first)
    (h : w.result 1 (VMStat.vmstatMode w.executable) = some (.exits exit))
    (haccepts : Capturer.vmstat.Accepts exit) :
    ∃ ran, VMStat.captureOutput w vmState Session.created =
      some (none, ⟨(VMStat.preserveOriginalOutput w
        (Handle.create.write first.output)).write exit.output, ran⟩) := by
  obtain ⟨err, hrun⟩ :=
    VMStat.executeCommand_wrong (s := Session.created) hprimary hbad none
  have hfallback := VMStat.executeCommand_well
    (s := ⟨VMStat.preserveOriginalOutput w (Handle.create.write first.output),
      [VMStat.command vmState]⟩) h haccepts (some (.ended first))
  refine ⟨[VMStat.command vmState, VMStat.vmstatMode w.executable], ?_⟩
  show (VMStat.executeCommand w _ none Session.created).bind _ = _
  rw [hrun]
  show (VMStat.executeCommand w (VMStat.vmstatMode w.executable) _ _).bind _ = _
  simp only [file_created, ran_created, List.nil_append]
  rw [hfallback]
  rfl

/-- Nothing of the primary is left exactly where its output can be read back or is written
over. -/
theorem content_preserveOriginalOutput_iff (w : World) (output fallback : GoString) :
    ((VMStat.preserveOriginalOutput w (Handle.create.write output)).write fallback).content =
      fallback ↔ ReadsBack w output fallback := by
  unfold VMStat.preserveOriginalOutput ReadsBack
  cases hread : w.readErr with
  | none => simp [Handle.content_write_create]
  | some read =>
    obtain ⟨n, err⟩ := read
    have hcontent : (Handle.create.write output).content = output :=
      Handle.content_write_create output
    have hoffset : ((Handle.create.write output).seekStart.read n).2.offset =
        min n output.length := by
      show 0 + (((Handle.create.write output).content.drop 0).take n).length = _
      rw [hcontent, List.drop_zero, List.length_take, Nat.zero_add]
    have hkept : ((Handle.create.write output).seekStart.read n).2.content = output := hcontent
    have hle : ((Handle.create.write output).seekStart.read n).2.offset ≤
        ((Handle.create.write output).seekStart.read n).2.content.length := by
      rw [hoffset, hkept]
      exact Nat.min_le_right _ _
    show (((Handle.create.write output).seekStart.read n).2.write fallback).content = _ ↔ _
    rw [Handle.content_write_eq_iff hle, hoffset, hkept]
    constructor
    · intro h n' err' heq
      cases heq
      exact h
    · intro h
      exact h n err rfl

end VMStat

/-! ## The rule for each of them -/

section Rules

variable {k : Commands} {w : World}

theorem followsRule_top_iff : FollowsRule .top k w ↔ NoticesFailures .top k w := by
  refine followsRule_iff_of_runs_eq_one rfl (fun exit hexit haccepts => ?_)
    fun exit hbad hexit haccepts => ?_
  · exact Top.captureOutput_well hexit haccepts.1
  · exact iff_of_true
      ⟨_, Top.captureOutput_wrong hbad hexit haccepts.1, Handle.content_write_create _⟩ trivial

theorem followsRule_topH_iff {pid : Int} :
    FollowsRule (.topH pid) k w ↔ NoticesFailures (.topH pid) k w := by
  refine followsRule_iff_of_runs_eq_one rfl (fun exit hexit haccepts => ?_)
    fun exit hbad hexit haccepts => ?_
  · exact TopH.captureOutput_well hexit haccepts.1
  · rcases goesWrong_cases hbad with ⟨err, hprimary⟩ | ⟨first, hprimary, hfirst⟩
    · refine iff_of_false (fun h => ?_) fun h => ?_
      · obtain ⟨s, hs, -⟩ := h
        cases (TopH.captureOutput_unstarted hprimary).symm.trans hs
      · obtain ⟨first, hfirst⟩ := h
        cases (run_of_result hprimary).symm.trans hfirst
    · have hcode : first.code ≠ 0 := fun hzero => hfirst ⟨hzero, trivial⟩
      exact iff_of_true
        ⟨_, TopH.captureOutput_wrong hprimary hcode hexit haccepts.1,
          Handle.content_write_create _⟩
        ⟨first, run_of_result hprimary⟩

theorem followsRule_dmesg_iff : FollowsRule .dmesg k w ↔ NoticesFailures .dmesg k w := by
  refine followsRule_iff_of_runs_eq_one rfl (fun exit hexit haccepts => ?_)
    fun exit hbad hexit haccepts => ?_
  · exact DMesg.captureOutput_well hexit haccepts.1
  · refine iff_of_false (fun h => ?_) id
    obtain ⟨s, hs, -⟩ := h
    obtain ⟨err, s', herr⟩ := DMesg.captureOutput_wrong hbad k.fallback
    cases herr.symm.trans hs

theorem followsRule_vmstat_iff : FollowsRule .vmstat k w ↔ NoticesFailures .vmstat k w := by
  refine followsRule_iff_of_runs_eq_one rfl (fun exit hexit haccepts => ?_)
    fun exit hbad hexit haccepts => ?_
  · exact VMStat.captureOutput_well hexit haccepts
  · rcases goesWrong_cases hbad with ⟨err, hprimary⟩ | ⟨first, hprimary, hfirst⟩
    · refine iff_of_false (fun h => ?_) fun h => ?_
      · obtain ⟨s, hs, -⟩ := h
        cases (VMStat.captureOutput_unstarted hprimary).symm.trans hs
      · obtain ⟨first, hfirst, -⟩ := h
        cases (run_of_result hprimary).symm.trans hfirst
    · obtain ⟨ran, hrun⟩ := VMStat.captureOutput_wrong hprimary hfirst hexit haccepts
      have hclear := content_preserveOriginalOutput_iff w first.output exit.output
      have hfallback : (w.run 1 (Capturer.vmstat.fallback k w)).output = exit.output :=
        congrArg Run.output (run_of_result hexit)
      constructor
      · intro h
        obtain ⟨s, hs, hcontent⟩ := h
        cases hrun.symm.trans hs
        refine ⟨first, run_of_result hprimary, ?_⟩
        rw [hfallback]
        exact hclear.mp hcontent
      · intro h
        obtain ⟨first', hfirst', hreads⟩ := h
        cases (run_of_result hprimary).symm.trans hfirst'
        rw [hfallback] at hreads
        exact ⟨_, hrun, hclear.mpr hreads⟩

theorem followsRule_ps_iff : FollowsRule .ps k w ↔ NoticesFailures .ps k w := by
  have hruns : Capturer.ps.runs = scriptSpan / javacoreInterval - 2 + 1 := Nat.add_comm _ _
  constructor
  · intro h i hfails hsucceeds
    obtain ⟨s, hs, -⟩ := h.fallback i hfails hsucceeds
    obtain ⟨hi, hwell, hwrong⟩ := hfails
    refine Nat.eq_zero_of_not_pos fun hpos => ?_
    obtain ⟨err, s', herr⟩ := snapshots_wrong (s := Session.created) (j := i)
      Handle.atEnd_create (hruns ▸ hi)
      (fun j hj => (Nat.zero_add j).symm ▸ hwell j hj)
      ((Nat.zero_add i).symm ▸ hwrong) 1
    have hfirst := PS.captureOutput_eq (hwell 0 hpos) k.fallback
    cases (hfirst.trans herr).symm.trans hs
  · intro h
    refine ⟨fun hsucceeds => ?_, fun i hfails hsucceeds => ?_⟩
    · have hfirst : GoesWell .ps w k.primary 0 := hsucceeds 0 (hruns ▸ Nat.succ_pos _)
      obtain ⟨file, hrun, hcontent⟩ := snapshots_well (s := Session.created)
        Handle.atEnd_create (fun j hj => hsucceeds j (hruns ▸ hj)) 1
      refine ⟨_, (PS.captureOutput_eq hfirst k.fallback).trans hrun, ?_, ?_⟩
      · rw [hruns]
        exact hcontent
      · rw [hruns]
        rfl
    · obtain rfl : i = 0 := h i hfails hsucceeds
      have hwrong : GoesWrong .ps w k.primary 0 := hfails.2.2
      have hfirst : GoesWell .ps w k.fallback 1 := hsucceeds 0 (hruns ▸ Nat.succ_pos _)
      obtain ⟨file, hrun, hcontent⟩ := snapshots_well (s := ⟨Handle.create, [k.primary]⟩)
        Handle.atEnd_create (fun j hj => hsucceeds j (hruns ▸ hj)) 1
      refine ⟨_, (PS.captureOutput_eq_fallback hwrong hfirst).trans hrun, ?_⟩
      rw [hruns]
      exact hcontent

/-- A capture follows the rule exactly where it notices every failure of the primary that the
fallback could make up for. -/
theorem followsRule_iff (c : Capturer) (k : Commands) (w : World) :
    FollowsRule c k w ↔ NoticesFailures c k w := by
  cases c with
  | top => exact followsRule_top_iff
  | topH pid => exact followsRule_topH_iff
  | ps => exact followsRule_ps_iff
  | dmesg => exact followsRule_dmesg_iff
  | vmstat => exact followsRule_vmstat_iff

/-- A `dmesg` that exits with an error, and a fallback that prints a line. -/
def failingDMesg : World where
  env := ⟨[], []⟩
  executable := str "/opt/yc/yc"
  run _ cmd :=
    if cmd = [str "false"] then .exits ⟨[], 1, some (str "exit status 1"), by decide⟩
    else .exits ⟨str "fallback output\n", 0, none, by decide⟩
  now _ := []
  readErr := none

theorem dmesg_breaksRule :
    ¬ FollowsRule .dmesg ⟨[str "false"], [str "echo", str "fallback output"]⟩ failingDMesg := by
  intro h
  refine followsRule_dmesg_iff.mp h 0 ⟨Nat.one_pos, fun j hj => absurd hj (Nat.not_lt_zero j), ?_⟩
    fun i hi => ?_
  · exact ⟨_, rfl, fun exit hexit haccepts => by cases hexit; exact absurd haccepts.1 (by decide)⟩
  · rw [Nat.lt_one_iff.mp hi]
    exact ⟨_, rfl, rfl, trivial⟩

end Rules

end YcAgent.Capture.Fallback
