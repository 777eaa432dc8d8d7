import YcAgent.Agent.CaptureDir
import YcAgent.Base.Defer

/-!
# What a capture leaves as it was

`FullCapture` changes the working directory, the logger and the counter of the wait group
that the agent waits for at its end, and undoes each change in a deferred call: the removal
of the directory, the way back with the zip file, and the end of the agent's log file. The
last one is also made by name before the log is uploaded, and then the variable of the log
file is cleared for the deferred call to see.

How the meta data, a capture, `yc-fin` or an upload ends is logged, and a line goes to the
logger of its moment. `none` is a panic: the end of a log file where none was begun, or a
wait group counted below zero.
-/
namespace YcAgent.Agent.Restore

open Go Defer

/-- A log file, by the directory that it is in. -/
structure LogFile where
  dir : Nat
  name : GoString

/-- The state of the process that a call changes; the top of the stack is its head. -/
structure Process (L : Type*) where
  place : WorkDir
  loggerStack : List (L × LogFile)
  logger : L
  wg : Nat

/-- The zip file is begun, it is complete, and the removal of the directory is begun. -/
inductive DirEvent where
  | zipCreated
  | zipped
  | removed
  deriving DecidableEq

/-- A line of the log that says how a step has ended. -/
inductive Line where
  | startFailed
  | stopFailed
  | metaInfo (ok : Bool)
  | result (ok : Bool)
  | finErr
  | agentLog (ok : Bool)
  | chdirFailed
  | zipFailed
  | dumpsFound
  | removeFailed

/-- A call in progress: the process, its variable of the log file, what it did with its
directory, and what it logged by which logger. -/
structure Running (L : Type*) where
  process : Process L
  agentLogFile : Option LogFile
  events : List DirEvent
  lines : List (L × Line)

def Running.log {L : Type*} (line : Line) (r : Running L) : Running L :=
  { r with lines := r.lines ++ [(r.process.logger, line)] }

/-- How the outside steps of a call end. -/
structure CaptureWorld where
  timestamp : GoString
  mkdir : Bool
  getwd : Bool
  chdir : Bool
  createLog : Bool
  closeLog : Bool
  metaInfo : Bool
  results : List Bool
  fin : Bool
  upload : Bool
  chdirBack : Bool
  createZip : Bool
  walk : Bool
  removeAll : Bool

section Call

variable {L : Type*} (output : L → LogFile → L) (o : Options) (w : CaptureWorld)

/-- `StartWritingToFile`, with the line that is logged where the file is not created. -/
def startWritingToFile (r : Running L) : Running L :=
  if w.createLog then
    let f : LogFile := ⟨r.process.place.cwd, str "yc360Logs.out"⟩
    let l := r.process.logger
    { r with
      process := { r.process with
        loggerStack := (l, f) :: r.process.loggerStack, logger := output l f }
      agentLogFile := some f }
  else { r.log .startFailed with agentLogFile := none }

/-- `StopWritingToFile`, with the line that is logged where the file does not close. -/
def stopWritingToFile : Call (Running L) := fun r =>
  match r.process.loggerStack with
  | [] => none
  | (l, _) :: loggerStack =>
    let r := { r with process := { r.process with loggerStack := loggerStack, logger := l } }
    some (if w.closeLog then r else r.log .stopFailed)

/-- The deferred end of the log file. -/
def stopLog : Call (Running L) := fun r =>
  match r.agentLogFile with
  | none => some r
  | some _ => stopWritingToFile w r

/-- `ZipFolder`, with the line about it. -/
def zipFolder (r : Running L) : Running L :=
  if w.createZip then
    let r := { r with events := r.events ++ [DirEvent.zipCreated] }
    if w.walk then { r with events := r.events ++ [DirEvent.zipped] }.log .dumpsFound
    else r.log .zipFailed
  else r.log .zipFailed

/-- The deferred way back to the directory of the caller. -/
def chdirBack (dir : DirPath) : Call (Running L) := fun r =>
  let onlyCapture : Bool := o .onlyCapture
  match if w.chdirBack then r.process.place.chdirTo dir else none with
  | none => some (r.log .chdirFailed)
  | some place =>
    let r := { r with process := { r.process with place := place } }
    some (if onlyCapture then zipFolder w r else r)

/-- `Wg.Done`. -/
def wgDone : Call (Running L) := fun r =>
  match r.process.wg with
  | 0 => none
  | n + 1 => some { r with process := { r.process with wg := n } }

/-- The deferred removal of the directory. -/
def removal : Call (Running L) := fun r =>
  let r := { r with events := r.events ++ [DirEvent.removed] }
  if w.removeAll then
    let place := r.process.place.removeAll (captureDir o w.timestamp)
    wgDone { r with process := { r.process with place := place } }
  else wgDone (r.log .removeFailed)

/-- `Wg.Add`, by as much as the removal takes back. -/
def ahead : Nat :=
  let deferDelete : Bool := o .deferDelete
  if deferDelete then 1 else 0

/-- The calls deferred before the change of directory. -/
def removals : Deferred (Running L) :=
  let deferDelete : Bool := o .deferDelete
  if deferDelete then [removal o w] else []

/-- The part of a call behind the start of the log file, up to the return; `ds` are the
calls deferred by then. -/
def captureBody (ds : Deferred (Running L)) : Call (Running L) := fun r =>
  let onlyCapture : Bool := o .onlyCapture
  let r := r.log (.metaInfo w.metaInfo)
  let r := w.results.foldl (fun r ok => r.log (.result ok)) r
  if onlyCapture then unwind ds r
  else
    let r := if w.fin then r else r.log .finErr
    match r.agentLogFile with
    | none => unwind ds r
    | some _ => (stopWritingToFile w r).bind fun r =>
      unwind ds (Running.log (.agentLog w.upload) { r with agentLogFile := none })

/-- The part of a call past the change of directory. -/
def captureIn (ds : Deferred (Running L)) : Call (Running L) := fun r =>
  let m3 : Bool := o .m3
  if m3 then captureBody o w ds r
  else captureBody o w (stopLog w :: ds) (startWritingToFile output w r)

/-- The directory is made, unless the one of the M3 cycle is used. -/
def makeDir (p : Process L) : Option WorkDir :=
  let m3 : Bool := o .m3
  if m3 then some p.place
  else if w.mkdir then (p.place.mkdir (captureDir o w.timestamp)).map Prod.fst
  else none

/-- The directory of the caller, and the change to the one of the capture. -/
def enterDir (place : WorkDir) : Option (DirPath × WorkDir) :=
  let m3 : Bool := o .m3
  (if w.getwd then place.getwd else none).bind fun dir =>
    (if m3 then some place
      else if w.chdir then place.chdir (captureDir o w.timestamp)
      else none).map fun place => (dir, place)

/-- `FullCapture`. -/
def fullCapture (p : Process L) : Option (Running L) :=
  match makeDir o w p with
  | none => some ⟨p, none, [], []⟩
  | some place =>
    let p := { p with wg := p.wg + ahead o }
    match enterDir o w place with
    | none => unwind (removals o w) ⟨{ p with place := place }, none, [], []⟩
    | some (dir, place) =>
      captureIn output o w (chdirBack o w dir :: removals o w)
        ⟨{ p with place := place }, none, [], []⟩

end Call

section Spec

variable {L : Type*} (o : Options) (w : CaptureWorld)

/-- What `ZipFolder` does with the directory. -/
def zipFolderEvents : List DirEvent :=
  if w.createZip then .zipCreated :: if w.walk then [.zipped] else [] else []

/-- What the way back does with it. -/
def zipEvents : List DirEvent :=
  let onlyCapture : Bool := o .onlyCapture
  if w.chdirBack && onlyCapture then zipFolderEvents w else []

/-- What the removal does with it. -/
def removeEvents : List DirEvent :=
  let deferDelete : Bool := o .deferDelete
  if deferDelete then [.removed] else []

/-- What a call does with its directory: nothing that is not made is removed, and none is
zipped that was not entered. -/
def dirEvents (p : Process L) : List DirEvent :=
  match makeDir o w p with
  | none => []
  | some place =>
    (if (enterDir o w place).isSome then zipEvents o w else []) ++ removeEvents o

/-- The logger and its stack are what they were. -/
structure LogKept (p : Process L) (r : Running L) : Prop where
  stack : r.process.loggerStack = p.loggerStack
  logger : r.process.logger = p.logger

/-- What holds between the change of directory and the way back, apart from the logger: `n`
is what the wait group is ahead. -/
structure Away (p : Process L) (n : Nat) (dir : DirPath) (r : Running L) : Prop where
  wg : r.process.wg = p.wg + n
  back : r.process.place.disk.lookup dir = some p.place.cwd
  events : r.events = []

/-- In the body: the log file is begun on top of what was there, or nothing has changed. -/
structure Body (p : Process L) (n : Nat) (dir : DirPath) (r : Running L) : Prop
    extends Away p n dir r where
  closed : r.agentLogFile = none → LogKept p r
  opened : ∀ f, r.agentLogFile = some f →
    r.process.loggerStack = (p.logger, f) :: p.loggerStack

/-- Behind the end of the log file. -/
structure Stopped (p : Process L) (n : Nat) (dir : DirPath) (r : Running L) : Prop
    extends Away p n dir r where
  log : LogKept p r

/-- Behind the way back, where only the removal is left. -/
structure Back (p : Process L) (n : Nat) (events : List DirEvent) (r : Running L) : Prop where
  wg : r.process.wg = p.wg + n
  log : LogKept p r
  cwd : w.chdirBack = true → r.process.place.cwd = p.place.cwd
  events : r.events = events

variable {o w} {output : L → LogFile → L} {p : Process L} {n : Nat} {dir : DirPath}
  {events : List DirEvent}

theorem Body.log {r : Running L} (h : Body p n dir r) (line : Line) :
    Body p n dir (r.log line) :=
  ⟨⟨h.wg, h.back, h.events⟩, fun hf => ⟨(h.closed hf).stack, (h.closed hf).logger⟩, h.opened⟩

theorem Stopped.logLine {r : Running L} (h : Stopped p n dir r) (line : Line) :
    Stopped p n dir (r.log line) :=
  ⟨⟨h.wg, h.back, h.events⟩, ⟨h.log.stack, h.log.logger⟩⟩

/-- Where the variable of the log file is cleared, its deferred end has nothing to do. -/
theorem Stopped.body {r : Running L} (h : Stopped p n dir r) (hfile : r.agentLogFile = none) :
    Body p n dir r :=
  ⟨h.toAway, fun _ => h.log,
    fun f hf => absurd (hfile.symm.trans hf) (Option.some_ne_none f).symm⟩

theorem body_startWritingToFile {r : Running L} (h : Stopped p n dir r) :
    Body p n dir (startWritingToFile output w r) := by
  unfold startWritingToFile
  split
  · refine ⟨⟨h.wg, h.back, h.events⟩, (fun hf => by cases hf), fun f hf => ?_⟩
    cases hf
    simp only [h.log.stack, h.log.logger]
  · have hlog : Stopped p n dir { r.log .startFailed with agentLogFile := none } :=
      ⟨⟨h.wg, h.back, h.events⟩, ⟨h.log.stack, h.log.logger⟩⟩
    exact hlog.body rfl

/-- The stack is not empty where the log file is ended. -/
theorem stopped_stopWritingToFile {r : Running L} {f : LogFile} (h : Body p n dir r)
    (hf : r.agentLogFile = some f) :
    ∃ r', stopWritingToFile w r = some r' ∧ Stopped p n dir r' := by
  have hstopped : Stopped p n dir { r with process := { r.process with
      loggerStack := p.loggerStack, logger := p.logger } } :=
    ⟨⟨h.wg, h.back, h.events⟩, ⟨rfl, rfl⟩⟩
  simp only [stopWritingToFile, h.opened f hf]
  refine ⟨_, rfl, ?_⟩
  split
  · exact hstopped
  · exact hstopped.logLine _

theorem triple_stopLog : Triple (Body p n dir) (stopLog w) (Stopped p n dir) := by
  intro r hr
  cases hf : r.agentLogFile with
  | none => exact ⟨r, by simp only [stopLog, hf], hr.toAway, hr.closed hf⟩
  | some f =>
    obtain ⟨r', hr', hstopped⟩ := stopped_stopWritingToFile (w := w) hr hf
    refine ⟨r', ?_, hstopped⟩
    simp only [stopLog, hf]
    exact hr'

theorem back_zipFolder {r : Running L} (h : Back w p n [] r) :
    Back w p n (zipFolderEvents w) (zipFolder w r) := by
  have hevents : ∀ e, r.events ++ e = e := by
    intro e
    rw [h.events, List.nil_append]
  unfold zipFolder zipFolderEvents
  cases w.createZip with
  | false => exact ⟨h.wg, ⟨h.log.stack, h.log.logger⟩, h.cwd, h.events⟩
  | true =>
    cases w.walk with
    | false => exact ⟨h.wg, ⟨h.log.stack, h.log.logger⟩, h.cwd, hevents [.zipCreated]⟩
    | true =>
      refine ⟨h.wg, ⟨h.log.stack, h.log.logger⟩, h.cwd, ?_⟩
      exact (List.append_assoc _ _ _).trans (hevents [.zipCreated, .zipped])

/-- The caller's directory has kept its path, so the way back finds it. -/
theorem triple_chdirBack :
    Triple (Stopped p n dir) (chdirBack o w dir) (Back w p n (zipEvents o w)) := by
  intro r hr
  unfold chdirBack zipEvents
  cases hback : w.chdirBack with
  | false =>
    refine ⟨r.log .chdirFailed, rfl, hr.wg, ⟨hr.log.stack, hr.log.logger⟩, fun h => ?_, hr.events⟩
    exact absurd (hback.symm.trans h) Bool.false_ne_true
  | true =>
    have hplace : r.process.place.chdirTo dir =
        some { r.process.place with cwd := p.place.cwd } := by
      rw [WorkDir.chdirTo, hr.back, Option.map_some]
    have hhome : Back w p n [] { r with process := { r.process with
        place := { r.process.place with cwd := p.place.cwd } } } :=
      ⟨hr.wg, ⟨hr.log.stack, hr.log.logger⟩, fun _ => rfl, hr.events⟩
    simp only [if_true, hplace]
    cases hcapture : (o .onlyCapture : Bool) with
    | false => exact ⟨_, rfl, hhome⟩
    | true => exact ⟨_, rfl, back_zipFolder hhome⟩

theorem wgDone_of_wg {r : Running L} {k : Nat} (h : r.process.wg = k + 1) :
    wgDone r = some { r with process := { r.process with wg := k } } := by
  simp only [wgDone, h]

theorem triple_removal :
    Triple (Back w p 1 events) (removal o w) (Back w p 0 (events ++ [.removed])) := by
  intro r hr
  have hevents : r.events ++ [.removed] = events ++ [.removed] := by rw [hr.events]
  unfold removal
  dsimp only
  split
  · refine ⟨_, wgDone_of_wg hr.wg, rfl, ⟨hr.log.stack, hr.log.logger⟩, fun h => ?_, hevents⟩
    exact (WorkDir.cwd_removeAll _ _).trans (hr.cwd h)
  · exact ⟨_, wgDone_of_wg hr.wg, rfl, ⟨hr.log.stack, hr.log.logger⟩, hr.cwd, hevents⟩

theorem triple_removals :
    Triple (Back w p (ahead o) events) (unwind (removals o w))
      (Back w p 0 (events ++ removeEvents o)) := by
  unfold ahead removals removeEvents
  dsimp only
  generalize (o .deferDelete : Bool) = deferDelete
  cases deferDelete with
  | false =>
    refine triple_unwind_nil fun r hr => ?_
    rw [if_neg Bool.false_ne_true, List.append_nil]
    exact hr
  | true => exact triple_unwind_cons triple_removal (triple_unwind_nil fun _ h => h)

/-- What holds in the body of a call: with the log file that it began, or without one where
none is begun. -/
structure InBody (o : Options) (p : Process L) (n : Nat) (dir : DirPath) (r : Running L) : Prop
    extends Body p n dir r where
  m3 : (o .m3 : Bool) = true → r.agentLogFile = none

theorem InBody.logLine {r : Running L} (h : InBody o p n dir r) (line : Line) :
    InBody o p n dir (r.log line) :=
  ⟨h.toBody.log line, h.m3⟩

theorem inBody_results {r : Running L} (results : List Bool) (h : InBody o p n dir r) :
    InBody o p n dir (results.foldl (fun r ok => r.log (.result ok)) r) := by
  induction results generalizing r with
  | nil => exact h
  | cons ok results ih => exact ih (h.logLine (.result ok))

/-- From the body, every return runs the deferred calls. -/
theorem triple_captureBody {Q : Running L → Prop} {ds : Deferred (Running L)}
    (hds : Triple (InBody o p n dir) (unwind ds) Q) :
    Triple (InBody o p n dir) (captureBody o w ds) Q := by
  intro r hr
  have hresults := inBody_results w.results (hr.logLine (.metaInfo w.metaInfo))
  unfold captureBody
  dsimp only
  split
  · exact hds _ hresults
  · generalize w.results.foldl _ _ = r₁ at hresults ⊢
    have hfin : InBody o p n dir (if w.fin then r₁ else r₁.log .finErr) := by
      split
      · exact hresults
      · exact hresults.logLine _
    generalize (if w.fin then r₁ else r₁.log .finErr) = r₂ at hfin ⊢
    split
    · exact hds _ hfin
    · rename_i f hfile
      obtain ⟨r', hr', hstopped⟩ := stopped_stopWritingToFile (w := w) hfin.toBody hfile
      have hcleared : Stopped p n dir { r' with agentLogFile := none } :=
        ⟨⟨hstopped.wg, hstopped.back, hstopped.events⟩, hstopped.log.stack, hstopped.log.logger⟩
      rw [hr', Option.bind_some]
      exact hds _ ⟨(hcleared.body rfl).log _, fun _ => rfl⟩

theorem triple_captureIn {Q : Running L → Prop} {ds : Deferred (Running L)} {r : Running L}
    (hds : Triple (Stopped p n dir) (unwind ds) Q) (hr : Stopped p n dir r)
    (hfile : r.agentLogFile = none) :
    ∃ r', captureIn output o w ds r = some r' ∧ Q r' := by
  unfold captureIn
  dsimp only
  cases hm3 : (o .m3 : Bool) with
  | false =>
    have hstop : Triple (InBody o p n dir) (unwind (stopLog w :: ds)) Q :=
      triple_unwind_cons (triple_stopLog.mono_left fun _ h => h.toBody) hds
    refine triple_captureBody hstop _ ⟨body_startWritingToFile hr, fun h => ?_⟩
    exact absurd (hm3.symm.trans h) Bool.false_ne_true
  | true =>
    have hnone : Triple (InBody o p n dir) (unwind ds) Q :=
      hds.mono_left fun _ h => ⟨h.toAway, h.closed (h.m3 hm3)⟩
    exact triple_captureBody hnone _ ⟨hr.body hfile, fun _ => hfile⟩

theorem cwd_makeDir {place : WorkDir} (h : makeDir o w p = some place) :
    place.cwd = p.place.cwd := by
  unfold makeDir at h
  dsimp only at h
  split at h
  · rw [Option.some.inj h]
  · split at h
    · obtain ⟨r, hr, rfl⟩ := Option.map_eq_some_iff.mp h
      exact WorkDir.cwd_mkdir hr
    · cases h

/-- The directory to go back to is the one of the caller, also after the change. -/
theorem lookup_enterDir {place place' : WorkDir} (h : enterDir o w place = some (dir, place')) :
    place'.disk.lookup dir = some place.cwd := by
  unfold enterDir at h
  dsimp only at h
  obtain ⟨dir', hdir, h⟩ := Option.bind_eq_some_iff.mp h
  obtain ⟨place'', hplace, h⟩ := Option.map_eq_some_iff.mp h
  obtain ⟨rfl, rfl⟩ := Prod.mk.inj h
  have hgetwd : place.disk.lookup dir' = some place.cwd := by
    split at hdir
    · exact WorkDir.lookup_getwd hdir
    · cases hdir
  have hdisk : place''.disk = place.disk := by
    split at hplace
    · rw [Option.some.inj hplace]
    · split at hplace
      · exact WorkDir.disk_chdir hplace
      · cases hplace
  rw [hdisk, hgetwd]

/-- One call, with whatever fails in it. -/
theorem fullCapture_back (output : L → LogFile → L) (o : Options) (w : CaptureWorld)
    (p : Process L) :
    ∃ r, fullCapture output o w p = some r ∧ Back w p 0 (dirEvents o w p) r := by
  unfold fullCapture dirEvents
  dsimp only
  cases hmade : makeDir o w p with
  | none => exact ⟨_, rfl, rfl, ⟨rfl, rfl⟩, fun _ => rfl, rfl⟩
  | some place =>
    have hcwd := cwd_makeDir hmade
    cases hentered : enterDir o w place with
    | none =>
      simp only [hentered]
      exact triple_removals _ ⟨rfl, ⟨rfl, rfl⟩, fun _ => hcwd, rfl⟩
    | some entered =>
      obtain ⟨dir, place'⟩ := entered
      simp only [hentered]
      have hlookup := (lookup_enterDir hentered).trans (congrArg some hcwd)
      exact triple_captureIn (triple_unwind_cons triple_chdirBack triple_removals)
        ⟨⟨rfl, hlookup, rfl⟩, ⟨rfl, rfl⟩⟩ rfl

end Spec

section Calls

variable {L : Type*} (output : L → LogFile → L)

/-- A call that has returned, from the state `before` it. -/
structure Return (L : Type*) where
  options : Options
  world : CaptureWorld
  before : Process L
  after : Running L

/-- Calls one after the other. -/
def captures : List (Options × CaptureWorld) → Process L → Option (List (Return L))
  | [], _ => some []
  | (o, w) :: cs, p => do
    let r ← fullCapture output o w p
    let rets ← captures cs r.process
    return ⟨o, w, p, r⟩ :: rets

theorem captures_back (output : L → LogFile → L) (cs : List (Options × CaptureWorld))
    (p : Process L) :
    ∃ rets, captures output cs p = some rets ∧
      rets.map (fun ret => (ret.options, ret.world)) = cs ∧
      ∀ ret ∈ rets, Back ret.world ret.before 0 (dirEvents ret.options ret.world ret.before)
        ret.after := by
  induction cs generalizing p with
  | nil => exact ⟨[], rfl, rfl, fun ret hret => by cases hret⟩
  | cons c cs ih =>
    obtain ⟨o, w⟩ := c
    obtain ⟨r, hr, hback⟩ := fullCapture_back output o w p
    obtain ⟨rets, hrets, hcs, hall⟩ := ih r.process
    refine ⟨⟨o, w, p, r⟩ :: rets, ?_, ?_, ?_⟩
    · simp only [captures, hr, hrets, Option.bind_eq_bind, Option.bind_some, Option.pure_def]
    · rw [List.map_cons, hcs]
    · intro ret hret
      cases List.mem_cons.mp hret with
      | inl h => rw [h]; exact hback
      | inr h => exact hall ret h

/-- Where neither part stops in between, a zip file that is begun is complete before the
removal. -/
theorem zipped_append {zip remove : List DirEvent}
    (hzip : zip = [] ∨ zip = [.zipCreated, .zipped])
    (hremove : remove = [] ∨ remove = [.removed]) :
    .zipCreated ∈ zip ++ remove → .removed ∈ zip ++ remove →
      zip ++ remove = [.zipCreated, .zipped, .removed] := by
  obtain rfl | rfl := hzip <;> obtain rfl | rfl := hremove <;> decide

theorem dirEvents_zipped {o : Options} {w : CaptureWorld} {p : Process L}
    (hwalk : w.walk = true) :
    .zipCreated ∈ dirEvents o w p → .removed ∈ dirEvents o w p →
      dirEvents o w p = [.zipCreated, .zipped, .removed] := by
  have hfolder : zipFolderEvents w = [] ∨ zipFolderEvents w = [.zipCreated, .zipped] := by
    unfold zipFolderEvents
    cases w.createZip with
    | false => exact Or.inl rfl
    | true => exact Or.inr (by rw [hwalk]; rfl)
  have hback : zipEvents o w = [] ∨ zipEvents o w = [.zipCreated, .zipped] := by
    unfold zipEvents
    dsimp only
    split
    · exact hfolder
    · exact Or.inl rfl
  have hremove : removeEvents o = [] ∨ removeEvents o = [.removed] := by
    unfold removeEvents
    dsimp only
    split
    · exact Or.inr rfl
    · exact Or.inl rfl
  unfold dirEvents
  split
  · exact zipped_append (Or.inl rfl) (Or.inl rfl)
  · split
    · exact zipped_append hback hremove
    · exact zipped_append (Or.inl rfl) hremove

/-- Calls one after the other, with whatever fails in them, never panic; after each the logger,
its stack and the wait group are what they were before it, so is the working directory
where the way back succeeds, and a zip file is complete before the removal. -/
theorem captures_restored (output : L → LogFile → L) (cs : List (Options × CaptureWorld))
    (p : Process L) :
    ∃ rets, captures output cs p = some rets ∧
      rets.map (fun ret => (ret.options, ret.world)) = cs ∧
      ∀ ret ∈ rets,
        ret.after.process.loggerStack = ret.before.loggerStack ∧
        ret.after.process.logger = ret.before.logger ∧
        ret.after.process.wg = ret.before.wg ∧
        (ret.world.chdirBack = true → ret.after.process.place.cwd = ret.before.place.cwd) ∧
        ret.after.events = dirEvents ret.options ret.world ret.before ∧
        (ret.world.walk = true → .zipCreated ∈ ret.after.events → .removed ∈ ret.after.events →
          ret.after.events = [.zipCreated, .zipped, .removed]) := by
  obtain ⟨rets, hrets, hcs, hall⟩ := captures_back output cs p
  refine ⟨rets, hrets, hcs, fun ret hret => ?_⟩
  have hback := hall ret hret
  refine ⟨hback.log.stack, hback.log.logger, hback.wg, hback.cwd, hback.events, ?_⟩
  intro hwalk hzip hremoved
  rw [hback.events] at hzip hremoved ⊢
  exact dirEvents_zipped hwalk hzip hremoved

end Calls

end YcAgent.Agent.Restore
