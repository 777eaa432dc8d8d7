import YcAgent.Base.FilePath
import YcAgent.Executils.Background
import YcAgent.Executils.Hookers

/-!
# The GC log of a process in M3 mode

`uploadGCLogM3` takes a log that is there, or what `jstat` prints, or what the agent prints in
`jstat`'s place. `captureGC` clears away what `jstat` left before it starts anything, and where
that fails it returns without a command, which is waited for all the same.
-/
namespace YcAgent.M3.GCLog

open Go Executils Executils.Background

/-- How a command with a file of its own goes: creating the file, and the process. -/
structure Tool where
  createErr : Option GoString
  run : Run

/-- How the steps end; `none` of `processGCLogFile` is the panic on a log name that is no
regular expression. -/
structure World where
  env : Executils.Env
  executable : GoString
  user : SudoWorld
  javaHome : GoString
  runGCCaptureCmd : GoString × Option GoString
  getGCLogFile : GoString × Option GoString
  processGCLogFile : GoString → Option (Bool × Option GoString)
  jstat : Tool
  jattach : Tool
  closeErr : Option GoString
  removeErr : Option GoString
  abs : GoString → Except GoString GoString

/-- The handles that were given out, those that are open, and the commands that were tried. -/
structure State where
  next : Nat
  opened : List Nat
  ran : List ExecCmd

def State.start : State := ⟨0, [], []⟩

def State.create (s : State) : State := { s with next := s.next + 1, opened := s.next :: s.opened }

def State.close (s : State) (file : Nat) : State := { s with opened := s.opened.erase file }

inductive Crash where
  | panics
  | nilCmdManager
  deriving DecidableEq

/-- A method call on a `CmdManager` that may be nil. -/
def wait : Option Manager → Except Crash (Option GoString)
  | none => .error .nilCmdManager
  | some c => .ok c.wait

/-- `CommandStartInBackgroundToFile`. -/
def commandStartInBackgroundToFile (e : Executils.Env) (cmd : Executils.Command)
    (hooks : List Hook) (tool : Tool) (s : State) :
    Except Crash (Option Nat × Option Manager × Option GoString × State) :=
  match tool.createErr with
  | some err => .ok (none, some .skipped, some err, s)
  | none =>
    let file := s.next
    let s := s.create
    if cmd.length < 1 then .ok (none, some .skipped, none, s.close file)
    else
      match newCommand e cmd (hooks.map Hook.hooker) with
      | none => .error .panics
      | some c =>
        match c.exec with
        | none => .ok (none, some .skipped, none, s.close file)
        | some process =>
          let s := { s with ran := s.ran ++ [process] }
          match tool.run with
          | .fails err => .ok (none, some .unstarted, some err, s.close file)
          | .exits exit => .ok (some file, some (.ended exit), none, s)

section Upload

variable (w : World) (pid : Int)

def fn : GoString := str "gc." ++ itoa pid ++ str ".log"

def jstatCommand : Executils.Command :=
  [FilePath.joinPath [w.javaHome, str "/bin/jstat"], str "-gc", str "-t", itoa pid, str "2000",
    str "30"]

def jattachCommand : Executils.Command := [w.executable, str "-p", itoa pid, str "-gcCaptureMode"]

def startJattach (s : State) :
    Except Crash (Option Nat × Option Manager × Option GoString × State) :=
  commandStartInBackgroundToFile w.env (jattachCommand w pid)
    [pidHook pid, .runAs w.user pid] w.jattach s

/-- `captureGC`; its results start as nil. -/
def captureGC (gc : Option Nat) (s : State) :
    Except Crash (Option Nat × Option Manager × Option GoString × State) :=
  match gc with
  | none => startJattach w pid s
  | some file =>
    let s := s.close file
    match w.closeErr with
    | some err => .ok (none, none, some err, s)
    | none =>
      match w.removeErr with
      | some err => .ok (none, none, some err, s)
      | none => startJattach w pid s

/-- The variables of `uploadGCLogM3`. -/
structure Vars where
  gcPath : GoString
  gc : Option Nat
  jstat : Option Manager
  triedJAttachGC : Bool
  state : State

/-- The path of a log that is there. -/
def World.gcPath : GoString :=
  let (bs, err) := w.runGCCaptureCmd
  if err.isNone ∧ 0 < bs.length then bs
  else
    let (output, err) := w.getGCLogFile
    if err.isNone ∧ 0 < output.length then output else []

/-- Up to the deferred close of the file. -/
def collect : Except Crash Vars :=
  match w.processGCLogFile w.gcPath with
  | none => .error .panics
  | some (hasFile, err) =>
    let s := if hasFile then State.start.create else State.start
    if hasFile = false ∨ err.isSome then do
      let (gc, jstat, err, s) ← commandStartInBackgroundToFile w.env (jstatCommand w pid)
        [.runAs w.user pid] w.jstat s
      if err.isNone then return ⟨fn pid, gc, jstat, false, s⟩
      else
        let (gc, jstat, err, s) ← captureGC w pid gc s
        return ⟨if err.isNone then fn pid else w.gcPath, gc, jstat, true, s⟩
    else return ⟨w.gcPath, some State.start.next, none, false, s⟩

/-- From the deferred close to the upload. -/
def await (v : Vars) : Except Crash Vars :=
  match v.jstat with
  | none => .ok v
  | some jstat =>
    if jstat.wait.isSome ∧ v.triedJAttachGC = false then do
      let (gc, jstat, err, s) ← captureGC w pid v.gc v.state
      let _ ← wait jstat
      return ⟨if err.isNone then fn pid else v.gcPath, gc, jstat, false, s⟩
    else .ok v

/-- The upload: the file that it gets, the files that are open, the path that is logged and the
one that is returned. -/
structure Upload where
  gc : Option Nat
  state : State
  absGCPath : GoString
  gcPath : GoString

def upload (v : Vars) : Upload where
  gc := v.gc
  state := v.state
  absGCPath :=
    match w.abs v.gcPath with
    | .ok path => path
    | .error err => str "path " ++ v.gcPath ++ str ": " ++ err
  gcPath := v.gcPath

def uploadGCLogM3 : Except Crash Upload := do
  let v ← collect w pid
  let v ← await w pid v
  return upload w v

/-- The upload is reached, with a file that is open or with nil. -/
def ReachesUpload : Prop :=
  ∃ u, uploadGCLogM3 w pid = .ok u ∧ ∀ file, u.gc = some file → file ∈ u.state.opened

/-- There is no log, or an error with it. -/
def World.NoLog : Prop :=
  ∃ hasFile err, w.processGCLogFile w.gcPath = some (hasFile, err) ∧
    (hasFile = false ∨ err.isSome = true)

/-- `jstat` is started and ends with an error. -/
def Tool.EndsBadly (tool : Tool) : Prop :=
  tool.createErr = none ∧ ∃ exit, tool.run = .exits exit ∧ exit.waitErr ≠ none

/-- What `jstat` left cannot be cleared away after it ended with an error. -/
def World.LeftBehind : Prop :=
  w.NoLog ∧ w.jstat.EndsBadly ∧ (w.closeErr ≠ none ∨ w.removeErr ≠ none)

end Upload

/-! ## Starting a command -/

section Start

variable {e : Executils.Env} {cmd : Executils.Command} {tool : Tool} {s : State}

/-- What a start leads to: an error without a file, or a file that is open. -/
inductive Started (tool : Tool) : Option Nat → Option Manager → Option GoString → State → Prop where
  | unfiled (err : GoString) (s : State) (hcreate : tool.createErr = some err) :
      Started tool none (some .skipped) (some err) s
  | failed (err : GoString) (s : State) (hrun : tool.run = .fails err) :
      Started tool none (some .unstarted) (some err) s
  | running (file : Nat) (exit : Exit) (s : State) (hcreate : tool.createErr = none)
      (hrun : tool.run = .exits exit) (hopen : file ∈ s.opened) :
      Started tool (some file) (some (.ended exit)) none s

theorem start_spec (e : Executils.Env) (hooks : List Hook) (hcmd : 1 < cmd.length) (tool : Tool)
    (s : State) : ∃ gc c err t,
      commandStartInBackgroundToFile e cmd hooks tool s = .ok (gc, c, err, t) ∧
        Started tool gc c err t := by
  cases hcreate : tool.createErr with
  | some err =>
    exact ⟨none, some .skipped, some err, s, by simp [commandStartInBackgroundToFile, hcreate],
      .unfiled err s hcreate⟩
  | none =>
    obtain ⟨m, c, hm, hc⟩ := exists_exec e hooks hcmd
    have hlen : ¬ cmd.length < 1 := by omega
    cases hrun : tool.run with
    | fails err =>
      refine ⟨none, some .unstarted, some err,
        { s.create with ran := s.create.ran ++ [c] }.close s.next, ?_, .failed err _ hrun⟩
      simp only [commandStartInBackgroundToFile, hcreate, if_neg hlen, hm, hc, hrun]
    | exits exit =>
      refine ⟨some s.next, some (.ended exit), none, { s.create with ran := s.create.ran ++ [c] },
        ?_, .running s.next exit _ hcreate hrun List.mem_cons_self⟩
      simp only [commandStartInBackgroundToFile, hcreate, if_neg hlen, hm, hc, hrun]

/-- A file comes with a command, and it is open. -/
theorem Started.opened {gc : Option Nat} {c : Option Manager} {err : Option GoString}
    (h : Started tool gc c err s) : c ≠ none ∧ ∀ file, gc = some file → file ∈ s.opened := by
  cases h with
  | unfiled err s hcreate => exact ⟨Option.some_ne_none _, nofun⟩
  | failed err s hrun => exact ⟨Option.some_ne_none _, nofun⟩
  | running file exit s hcreate hrun hopen =>
    refine ⟨Option.some_ne_none _, fun file' hfile => ?_⟩
    cases hfile
    exact hopen

theorem Started.endsBadly_iff {gc : Option Nat} {exit : Exit} {err : Option GoString}
    (h : Started tool gc (some (.ended exit)) err s) : tool.EndsBadly ↔ exit.waitErr ≠ none := by
  cases h with
  | running file exit s hcreate hrun hopen =>
    constructor
    · rintro ⟨-, exit', hrun', hwait⟩
      cases hrun.symm.trans hrun'
      exact hwait
    · intro hwait
      exact ⟨hcreate, exit, hrun, hwait⟩

theorem Started.not_endsBadly {gc : Option Nat} {c : Option Manager} {err : GoString}
    (h : Started tool gc c (some err) s) : ¬ tool.EndsBadly := by
  rintro ⟨hcreate', exit, hexit, -⟩
  cases h with
  | unfiled err s hcreate => cases hcreate.symm.trans hcreate'
  | failed err s hrun => cases hrun.symm.trans hexit

end Start

/-! ## The upload -/

section Total

variable {w : World} {pid : Int}

/-- What is ahead of the upload goes through, and the file is open or nil. -/
def Reaches (r : Except Crash Vars) : Prop :=
  ∃ v, r = .ok v ∧ ∀ file, v.gc = some file → file ∈ v.state.opened

theorem reachesUpload_iff : ReachesUpload w pid ↔ Reaches (collect w pid >>= await w pid) := by
  unfold ReachesUpload uploadGCLogM3 Reaches
  cases hcollect : collect w pid with
  | error crash => simp [bind, Except.bind]
  | ok v =>
    cases hawait : await w pid v with
    | error crash => simp [bind, Except.bind, hawait]
    | ok v' =>
      constructor
      · rintro ⟨u, hu, hopen⟩
        obtain rfl : upload w v' = u := by
          simpa [bind, Except.bind, hawait, pure, Except.pure] using hu
        exact ⟨v', by simp [bind, Except.bind, hawait], hopen⟩
      · rintro ⟨v'', hv, hopen⟩
        obtain rfl : v' = v'' := by simpa [bind, Except.bind, hawait] using hv
        exact ⟨upload w v', by simp [bind, Except.bind, hawait, pure, Except.pure], hopen⟩

/-- Without a file to clear away, a command is started. -/
theorem captureGC_none (w : World) (pid : Int) (s : State) : ∃ gc c err t,
    captureGC w pid none s = .ok (gc, c, err, t) ∧ Started w.jattach gc c err t :=
  start_spec w.env _ (by simp [jattachCommand]) w.jattach s

/-- With one, either a command is started or there is none. -/
theorem captureGC_some (w : World) (pid : Int) (file : Nat) (s : State) : ∃ gc c err t,
    captureGC w pid (some file) s = .ok (gc, c, err, t) ∧
      if w.closeErr ≠ none ∨ w.removeErr ≠ none then c = none
      else Started w.jattach gc c err t := by
  cases hclose : w.closeErr with
  | some err =>
    refine ⟨none, none, some err, s.close file, by simp [captureGC, hclose], ?_⟩
    rw [if_pos (Or.inl (Option.some_ne_none err))]
  | none =>
    cases hremove : w.removeErr with
    | some err =>
      refine ⟨none, none, some err, s.close file, by simp [captureGC, hclose, hremove], ?_⟩
      rw [if_pos (Or.inr (Option.some_ne_none err))]
    | none =>
      obtain ⟨gc, c, err, t, hstart, hstarted⟩ := captureGC_none w pid (s.close file)
      refine ⟨gc, c, err, t, ?_, ?_⟩
      · rw [← hstart]
        simp only [captureGC, hclose, hremove]
      · rw [if_neg (by simp)]
        exact hstarted

/-- A `jstat` that could not be started is not waited for a second time. -/
theorem await_tried {v : Vars} (h : v.triedJAttachGC = true) : await w pid v = .ok v := by
  unfold await
  cases v.jstat with
  | none => rfl
  | some jstat => simp [h]

/-- Behind a `jstat` that was started, the wait for the other command is one for nil where there
is something left behind. -/
theorem await_running {file : Nat} {exit : Exit} {s : State} (gcPath : GoString)
    (hopen : file ∈ s.opened) :
    Reaches (await w pid ⟨gcPath, some file, some (.ended exit), false, s⟩) ↔
      ¬ (exit.waitErr ≠ none ∧ (w.closeErr ≠ none ∨ w.removeErr ≠ none)) := by
  cases hwait : exit.waitErr with
  | none =>
    refine iff_of_true ⟨⟨gcPath, some file, some (.ended exit), false, s⟩, ?_,
      fun file' hfile => ?_⟩ (fun h => h.1 rfl)
    · simp [await, Manager.wait, hwait]
    · cases hfile
      exact hopen
  | some waitErr =>
    obtain ⟨gc, c, err, t, hcapture, hcases⟩ := captureGC_some w pid file s
    have hawait : await w pid ⟨gcPath, some file, some (.ended exit), false, s⟩ = (do
        let _ ← wait c
        return ⟨if err.isNone then fn pid else gcPath, gc, c, false, t⟩) := by
      simp [await, Manager.wait, hwait, hcapture, bind, Except.bind]
    rw [hawait]
    split at hcases
    · rename_i hleft
      subst hcases
      refine iff_of_false ?_ (fun h => h ⟨Option.some_ne_none _, hleft⟩)
      rintro ⟨v, hv, -⟩
      cases hv
    · rename_i hclear
      obtain ⟨hsome, hfile⟩ := hcases.opened
      obtain ⟨c, rfl⟩ := Option.ne_none_iff_exists'.mp hsome
      exact iff_of_true ⟨_, rfl, hfile⟩ (fun h => hclear h.2)

theorem collect_of_log {err : Option GoString} (hprocess : w.processGCLogFile w.gcPath =
    some (true, err)) (herr : err = none) :
    collect w pid = .ok ⟨w.gcPath, some State.start.next, none, false, State.start.create⟩ := by
  subst herr
  simp [collect, hprocess, pure, Except.pure]

/-- Without a log `jstat` is tried, and where it cannot be started the agent in its place. -/
theorem collect_of_noLog (hlog : w.NoLog) (pid : Int) : ∃ gc c err t,
    Started w.jstat gc c err t ∧
      if err = none then collect w pid = .ok ⟨fn pid, gc, c, false, t⟩
      else ∃ v, collect w pid = .ok v ∧ v.triedJAttachGC = true ∧
        ∀ file, v.gc = some file → file ∈ v.state.opened := by
  obtain ⟨hasFile, err, hprocess, hnone⟩ := hlog
  obtain ⟨gc, c, err, t, hstart, hstarted⟩ := start_spec w.env
    [.runAs w.user pid] (show 1 < (jstatCommand w pid).length by simp [jstatCommand]) w.jstat
    (if hasFile then State.start.create else State.start)
  refine ⟨gc, c, err, t, hstarted, ?_⟩
  cases err with
  | none =>
    rw [if_pos rfl]
    simp only [collect, hprocess, if_pos hnone, hstart]
    rfl
  | some err =>
    rw [if_neg (Option.some_ne_none err)]
    obtain ⟨gc', c', err', t', hcapture, hstarted'⟩ := captureGC_none w pid t
    obtain rfl : gc = none := by
      cases hstarted <;> rfl
    refine ⟨⟨if err'.isNone then fn pid else w.gcPath, gc', c', true, t'⟩, ?_, rfl,
      hstarted'.opened.2⟩
    simp only [collect, hprocess, if_pos hnone, hstart, bind, Except.bind, Option.isNone_some,
      Bool.false_eq_true, if_false, hcapture]
    rfl

theorem reaches_of_collect {v : Vars} (h : collect w pid = .ok v) :
    Reaches (collect w pid >>= await w pid) ↔ Reaches (await w pid v) := by
  rw [h]
  rfl

/-- Where the command that is waited for is the last one, the upload is reached. -/
theorem reaches_of_tried {v : Vars} (h : collect w pid = .ok v) (htried : v.triedJAttachGC = true)
    (hopen : ∀ file, v.gc = some file → file ∈ v.state.opened) :
    Reaches (collect w pid >>= await w pid) :=
  (reaches_of_collect h).mpr ⟨v, await_tried htried, hopen⟩

/-- A call with a log returns it, and one whose log name is no regular expression ends in a
panic. -/
theorem reaches_of_log (hlog : ¬ w.NoLog) (pid : Int) :
    Reaches (collect w pid >>= await w pid) ↔ w.processGCLogFile w.gcPath ≠ none := by
  cases hprocess : w.processGCLogFile w.gcPath with
  | none =>
    refine iff_of_false ?_ (fun h => h rfl)
    rintro ⟨v, hv, -⟩
    simp [collect, hprocess, bind, Except.bind] at hv
  | some result =>
    obtain ⟨hasFile, err⟩ := result
    have hfile : hasFile = true := by
      by_contra hfalse
      exact hlog ⟨hasFile, err, hprocess, Or.inl (Bool.not_eq_true _ ▸ hfalse)⟩
    have herr : err = none := by
      by_contra hsome
      exact hlog ⟨hasFile, err, hprocess, Or.inr (Option.isSome_iff_ne_none.mpr hsome)⟩
    subst hfile
    refine iff_of_true ((reaches_of_collect (collect_of_log hprocess herr)).mpr
      ⟨_, rfl, fun file hfile => ?_⟩) (Option.some_ne_none _)
    cases hfile
    exact List.mem_cons_self

/-- A call without a log ends in a panic only behind a `jstat` that leaves something behind. -/
theorem reaches_of_noLog (hlog : w.NoLog) (pid : Int) :
    Reaches (collect w pid >>= await w pid) ↔ ¬ w.LeftBehind := by
  obtain ⟨gc, c, err, t, hstarted, hcollect⟩ := collect_of_noLog hlog pid
  cases err with
  | none =>
    rw [if_pos rfl] at hcollect
    cases hstarted with
    | running file exit t hcreate hrun hopen =>
      have hends := (Started.running file exit t hcreate hrun hopen).endsBadly_iff
      rw [reaches_of_collect hcollect, await_running (fn pid) hopen, World.LeftBehind, hends]
      simp only [hlog, true_and]
  | some err =>
    rw [if_neg (Option.some_ne_none err)] at hcollect
    obtain ⟨v, hv, htried, hopen⟩ := hcollect
    exact iff_of_true (reaches_of_tried hv htried hopen)
      fun hleft => hstarted.not_endsBadly hleft.2.1

/-- The upload is reached with an open file or nil if and only if the log name is a regular
expression, and what a `jstat` that ends badly leaves can be cleared away. -/
theorem reachesUpload_iff_not_leftBehind (w : World) (pid : Int) :
    ReachesUpload w pid ↔ w.processGCLogFile w.gcPath ≠ none ∧ ¬ w.LeftBehind := by
  rw [reachesUpload_iff]
  by_cases hlog : w.NoLog
  · have hprocess : w.processGCLogFile w.gcPath ≠ none := by
      obtain ⟨hasFile, err, hprocess, -⟩ := hlog
      rw [hprocess]
      exact Option.some_ne_none _
    rw [reaches_of_noLog hlog]
    exact (and_iff_right hprocess).symm
  · have hclear : ¬ w.LeftBehind := fun hleft => hlog hleft.1
    rw [reaches_of_log hlog]
    exact (and_iff_left hclear).symm

end Total

/-- `jstat` ends with an error, and its output cannot be removed. -/
def stuck : World where
  env := ⟨[], []⟩
  executable := str "/bin/yc"
  user := ⟨fun _ => none, 0, false⟩
  javaHome := str "/jdk"
  runGCCaptureCmd := ([], none)
  getGCLogFile := ([], none)
  processGCLogFile _ := some (false, none)
  jstat := ⟨none, .exits ⟨[], 2, some (str "exit status 2"), by decide⟩⟩
  jattach := ⟨none, .fails []⟩
  closeErr := none
  removeErr := some (str "permission denied")
  abs path := .ok path

/-- The wait for the command that takes its place is one for nil. -/
theorem stuck_crashes : uploadGCLogM3 stuck 7 = .error .nilCmdManager ∧
    ¬ ∀ (w : World) (pid : Int), ReachesUpload w pid := by
  have hcrash : uploadGCLogM3 stuck 7 = .error .nilCmdManager := rfl
  refine ⟨hcrash, fun h => ?_⟩
  obtain ⟨u, hu, -⟩ := h stuck 7
  rw [hcrash] at hu
  cases hu

end YcAgent.M3.GCLog
