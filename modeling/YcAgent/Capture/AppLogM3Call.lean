import YcAgent.Base.Keyed
import YcAgent.Capture.AppLogM3

/-!
# Whole calls of the incremental reader

`captureSingleAppLog` is one call from its stat to its return, with the answers of the
outside world given in advance. It makes the steps of the reader's machine, and it
reads and writes the entry of its own path only.
-/
namespace YcAgent.Capture.AppLogM3

set_option linter.dupNamespace false

open Go Transition

/-- How the outside steps of a call end. `names` are the files of the working directory, and
`copy` is what a copy from an offset yields. -/
structure CallWorld where
  stat : Option Nat
  opens : Bool
  seek : Seek
  names : List GoString
  creates : Bool
  copy : Nat → Option GoString
  syncs : Bool
  post : PostWorld

/-- The arguments of a call and the world it runs in. -/
structure CallIn where
  filePath : GoString
  pid : Int
  endpoint : GoString
  world : CallWorld

inductive CallStep where
  | stat
  | open_
  | seek
  | create
  | copy
  | sync
  deriving DecidableEq

inductive Outcome where
  | failed (at_ : CallStep)
  | initialized
  | posted (r : Reading) (p : Posted)

/-- What the call has read when `dst` is copied. -/
def CallIn.reading (c : CallIn) (size start : Nat) (dst : GoString) : Reading where
  filePath := c.filePath
  pid := c.pid
  size := size
  start := start
  dstPath := AppLog.generateUniqueLogPath c.world.names (base c.filePath)
  dst := dst

variable (o : Options)

def captureSingleAppLog (readStats : ReadStats) (c : CallIn) : ReadStats × Outcome :=
  match c.world.stat with
  | none => (readStats, .failed .stat)
  | some size =>
    if c.world.opens = false then (readStats, .failed .open_)
    else
      match readStats.lookup c.filePath with
      | none => (readStats.insert c.filePath ⟨c.filePath, size, size⟩, .initialized)
      | some readStat =>
        match seekStart readStat size c.world.seek with
        | none => (readStats, .failed .seek)
        | some start =>
          if c.world.creates = false then (readStats, .failed .create)
          else
            match c.world.copy start with
            | none => (readStats, .failed .copy)
            | some dst =>
              let r := c.reading size start dst
              let readStats := readStats.insert c.filePath r.readStat
              if c.world.syncs = false then (readStats, .failed .sync)
              else (readStats, .posted r (r.post o c.endpoint c.world.post))

/-- A call leaves the map as it is or replaces the entry of its path; which of the two, the
new entry and the outcome depend on the old entry alone. -/
theorem captureSingleAppLog_entry (c : CallIn) (entry : Option ReadStat) :
    ∃ (new : Option ReadStat) (out : Outcome), ∀ readStats : ReadStats,
      readStats.lookup c.filePath = entry →
        captureSingleAppLog o readStats c =
          (match new with
            | none => readStats
            | some st => readStats.insert c.filePath st, out) := by
  unfold captureSingleAppLog
  cases c.world.stat with
  | none => exact ⟨none, _, fun _ _ => rfl⟩
  | some size =>
    cases c.world.opens with
    | false => exact ⟨none, _, fun _ _ => rfl⟩
    | true =>
      cases entry with
      | none => exact ⟨some ⟨c.filePath, size, size⟩, .initialized, fun m hm => by rw [hm]; rfl⟩
      | some readStat =>
        cases hstart : seekStart readStat size c.world.seek with
        | none => exact ⟨none, .failed .seek, fun m hm => by rw [hm]; simp [hstart]⟩
        | some start =>
          cases hcreate : c.world.creates with
          | false => exact ⟨none, .failed .create, fun m hm => by rw [hm]; simp [hstart]⟩
          | true =>
            cases hcopy : c.world.copy start with
            | none => exact ⟨none, .failed .copy, fun m hm => by rw [hm]; simp [hstart, hcopy]⟩
            | some dst =>
              let r := c.reading size start dst
              cases hsync : c.world.syncs with
              | false =>
                exact ⟨some r.readStat, .failed .sync, fun m hm => by
                  rw [hm]; simp [hstart, hcopy, r]⟩
              | true =>
                exact ⟨some r.readStat, .posted r (r.post o c.endpoint c.world.post), fun m hm => by
                  rw [hm]; simp [hstart, hcopy, r]⟩

theorem local_captureSingleAppLog : Keyed.Local CallIn.filePath (captureSingleAppLog o) where
  output m m' c h := by
    obtain ⟨new, out, hall⟩ := captureSingleAppLog_entry o c (m'.lookup c.filePath)
    rw [hall m h, hall m' rfl]
  entry m m' c h := by
    obtain ⟨new, out, hall⟩ := captureSingleAppLog_entry o c (m'.lookup c.filePath)
    rw [hall m h, hall m' rfl]
    cases new with
    | none => exact h
    | some st => rw [Finmap.lookup_insert, Finmap.lookup_insert]
  frame m c k hk := by
    obtain ⟨new, out, hall⟩ := captureSingleAppLog_entry o c (m.lookup c.filePath)
    rw [hall m rfl]
    cases new with
    | none => rfl
    | some st => exact Finmap.lookup_insert_of_ne _ hk

/-- The files do not change during the call. -/
structure Quiet (s : State) (c : CallIn) : Prop where
  stat : ∀ size, c.world.stat = some size → size = (s.files c.filePath).length
  copy : ∀ start dst, c.world.copy start = some dst → dst = (s.files c.filePath).drop start

variable {o}

/-- The copy of a file that does not change takes one read, or none at its end. -/
theorem run_copy (o : Options) (endpoint : GoString) (s : State) {r : Reading}
    (hdst : r.dst = []) (names : List GoString) :
    let r' : Reading := { r.create names with dst := (s.files r.filePath).drop r.start }
    ∃ as, run (step o endpoint) { s with call := .opened r } as =
      some { s with
        readStats := s.readStats.insert r.filePath r'.readStat
        call := .copied r'
        history := s.history ++ [.copied r'] } := by
  intro r'
  have hchunk : chunk s.files (r.create names) (s.files r.filePath).length = r'.dst := by
    rw [chunk, Reading.offset, Reading.create, hdst, List.length_nil, Nat.add_zero,
      List.take_of_length_le]
    rw [List.length_drop]
    exact Nat.sub_le _ _
  have hend : (s.files r'.filePath).length ≤ r'.offset := by
    show (s.files r.filePath).length ≤ r.start + ((s.files r.filePath).drop r.start).length
    rw [List.length_drop]
    omega
  have hcreate : step o endpoint { s with call := .opened r } (.create names) =
      some { s with call := .copying (r.create names) } := rfl
  have hcopyEnds : step o endpoint { s with call := .copying r' } .copyEnds =
      some { s with
        readStats := s.readStats.insert r.filePath r'.readStat
        call := .copied r'
        history := s.history ++ [.copied r'] } := if_pos hend
  by_cases hnil : r'.dst = []
  · have hr : r.create names = r' := by
      cases r
      simp only [r', Reading.create, Reading.mk.injEq, true_and]
      exact hdst.trans hnil.symm
    refine ⟨[.create names, .copyEnds], ?_⟩
    rw [run_cons hcreate, hr, run_cons hcopyEnds, run]
  · have hread : step o endpoint { s with call := .copying (r.create names) }
        (.read (s.files r.filePath).length) = some { s with call := .copying r' } := by
      have hempty : (r.create names).dst = [] := hdst
      simp only [step]
      rw [hchunk, if_neg hnil, hempty, List.nil_append]
    refine ⟨[.create names, .read (s.files r.filePath).length, .copyEnds], ?_⟩
    rw [run_cons hcreate, run_cons hread, run_cons hcopyEnds, run]

/-- The machine is between calls again, with the entries and the delivery of the call. -/
structure Ends (files : GoString → GoString) (result : ReadStats × Outcome) (t : State) :
    Prop where
  idle : t.call = .idle
  files : t.files = files
  readStats : t.readStats = result.1
  posted : ∀ r p, result.2 = .posted r p → t.history.getLast? = some (.returned r p.ok)

/-- A call that opens its file at `start` makes the rest of its steps. -/
theorem run_opened {s : State} {c : CallIn} (size start : Nat) (hquiet : Quiet s c) :
    let r : Reading := ⟨c.filePath, c.pid, size, start, [], []⟩
    ∃ as t, run (step o c.endpoint) { s with call := .opened r } as = some t ∧
      Ends s.files
        (if c.world.creates = false then (s.readStats, .failed .create)
        else
          match c.world.copy start with
          | none => (s.readStats, .failed .copy)
          | some dst =>
            let r := c.reading size start dst
            let readStats := s.readStats.insert c.filePath r.readStat
            if c.world.syncs = false then (readStats, .failed .sync)
            else (readStats, .posted r (r.post o c.endpoint c.world.post))) t := by
  intro r
  cases c.world.creates with
  | false => exact ⟨[.createFails], _, rfl, rfl, rfl, rfl, by simp⟩
  | true =>
    rw [if_neg (by decide)]
    cases hcopy : c.world.copy start with
    | none =>
      exact ⟨[.create c.world.names, .copyFails], _, rfl, rfl, rfl, rfl, by simp⟩
    | some dst =>
      obtain rfl := hquiet.copy start dst hcopy
      obtain ⟨as, hcopied⟩ := run_copy o c.endpoint s (r := r) rfl c.world.names
      let r' := c.reading size start ((s.files c.filePath).drop start)
      let readStats := s.readStats.insert c.filePath r'.readStat
      cases hsyncs : c.world.syncs with
      | false =>
        have hrun : run (step o c.endpoint) { s with call := .opened r } (as ++ [.syncFails]) =
            some ⟨s.files, readStats, .idle,
              s.history ++ [.copied r'] ++ [.returned r' false]⟩ := by
          rw [run_append, hcopied]
          rfl
        exact ⟨_, _, hrun, rfl, rfl, rfl, by simp⟩
      | true =>
        have hrun : run (step o c.endpoint) { s with call := .opened r }
            (as ++ [.sync, .post c.world.post]) =
            some ⟨s.files, readStats, .idle, s.history ++ [.copied r'] ++
              [.returned r' (r'.post o c.endpoint c.world.post).ok]⟩ := by
          rw [run_append, hcopied]
          rfl
        refine ⟨_, _, hrun, rfl, rfl, rfl, fun r'' p h => ?_⟩
        obtain ⟨rfl, rfl⟩ := Outcome.posted.inj h
        exact List.getLast?_concat

/-- A whole call makes steps of the machine and ends in the same entries and delivery. -/
theorem captureSingleAppLog_refines {s : State} {c : CallIn} (hidle : s.call = .idle)
    (hquiet : Quiet s c) :
    ∃ as t, run (step o c.endpoint) s as = some t ∧
      Ends s.files (captureSingleAppLog o s.readStats c) t := by
  have hfailed : ∀ (as : List Action) {at_ : CallStep},
      run (step o c.endpoint) s as = some { s with call := .idle } →
      ∃ as t, run (step o c.endpoint) s as = some t ∧
        Ends s.files (s.readStats, .failed at_) t :=
    fun as _ hrun => ⟨as, _, hrun, rfl, rfl, rfl, by simp⟩
  have hstay : run (step o c.endpoint) s [] = some { s with call := .idle } := by
    rw [← hidle]
    rfl
  unfold captureSingleAppLog
  cases hstat : c.world.stat with
  | none => exact hfailed [] hstay
  | some size =>
    obtain rfl := hquiet.stat size hstat
    have hstatted : step o c.endpoint s (.stat c.filePath c.pid) =
        some { s with call := .statted c.filePath c.pid (s.files c.filePath).length } :=
      if_pos hidle
    cases c.world.opens with
    | false => exact hfailed [.stat c.filePath c.pid, .openFails] (run_cons hstatted _)
    | true =>
      have hopened : ∀ seek, step o c.endpoint
          { s with call := .statted c.filePath c.pid (s.files c.filePath).length }
          (.openSeek seek) = some (openSeek
            { s with call := .statted c.filePath c.pid (s.files c.filePath).length }
            c.filePath c.pid (s.files c.filePath).length seek) := fun _ => rfl
      simp only [reduceCtorEq, if_false]
      cases hlookup : s.readStats.lookup c.filePath with
      | none =>
        let size := (s.files c.filePath).length
        have hrun : run (step o c.endpoint) s [.stat c.filePath c.pid, .openSeek c.world.seek] =
            some { s with
              readStats := s.readStats.insert c.filePath ⟨c.filePath, size, size⟩
              call := .idle
              history := s.history ++ [.initialized c.filePath size] } := by
          rw [run_cons hstatted, run_cons (hopened _), run, openSeek]
          simp only [hlookup, size]
        exact ⟨_, _, hrun, rfl, rfl, rfl, by simp⟩
      | some readStat =>
        cases hstart : seekStart readStat (s.files c.filePath).length c.world.seek with
        | none =>
          simp only [hstart]
          refine hfailed [.stat c.filePath c.pid, .openSeek c.world.seek] ?_
          rw [run_cons hstatted, run_cons (hopened _), run, openSeek]
          simp only [hlookup, hstart]
        | some start =>
          obtain ⟨as, t, hrun, hends⟩ := run_opened (o := o)
            (s.files c.filePath).length start hquiet
          simp only [hstart]
          refine ⟨.stat c.filePath c.pid :: .openSeek c.world.seek :: as, t, ?_, hends⟩
          rw [run_cons hstatted, run_cons (hopened _)]
          simpa only [openSeek, hlookup, hstart] using hrun

/-- The second call for a log of five bytes, of which the first three are read. -/
def secondCall : CallIn :=
  ⟨str "/log", 1, str "http://h/m3?de=h",
    ⟨some 5, true, .ok, [], true, fun start => some ((str "abcde").drop start), true,
      ⟨none, none, none, none, none, 200, .ok []⟩⟩⟩

def afterFirst : State :=
  ⟨fun _ => str "abcde", (∅ : ReadStats).insert (str "/log") ⟨str "/log", 3, 3⟩, .idle, []⟩

theorem captureSingleAppLog_refines_second :
    ∃ as t, run (step defaultOptions secondCall.endpoint) afterFirst as = some t ∧
      Ends afterFirst.files
        (captureSingleAppLog defaultOptions afterFirst.readStats secondCall) t :=
  captureSingleAppLog_refines rfl
    ⟨fun _ h => (Option.some.inj h).symm, fun _ _ h => (Option.some.inj h).symm⟩

/-- `Paths` is a Go map, listed in the order in which its iteration happens to go. -/
structure AppLogM3 where
  paths : List (Int × List GoString)
  readStats : ReadStats

def newAppLogM3 : AppLogM3 := ⟨[], ∅⟩

def AppLogM3.setPaths (a : AppLogM3) (p : List (Int × List GoString)) : AppLogM3 :=
  { a with paths := p }

/-- What `Run` does with one match of a pattern, or with a pattern that is malformed. -/
inductive Job where
  | invalidGlob (pattern : GoString)
  | file (filePath : GoString) (pid : Int)
  deriving DecidableEq

/-- The jobs of the loops of `Run`; `glob` is `zglob.Glob`, without a result on an error. -/
def AppLogM3.jobs (glob : GoString → Option (List GoString)) (a : AppLogM3) : List Job :=
  a.paths.flatMap fun (pid, paths) => paths.flatMap fun path =>
    match glob path with
    | none => [.invalidGlob path]
    | some ms => ms.map fun m => .file m pid

inductive FileResult where
  | invalidGlob (pattern : GoString)
  | captured (c : CallIn) (out : Outcome)

def Job.call (endpoint : GoString) : Job → CallWorld → Option CallIn
  | .invalidGlob _, _ => none
  | .file filePath pid, world => some ⟨filePath, pid, endpoint, world⟩

variable (o)

/-- One round of the innermost loop of `Run`. -/
def runJob (endpoint : GoString) (worlds : Nat → CallWorld) (s : AppLogM3 × List FileResult)
    (job : Job × Nat) : AppLogM3 × List FileResult :=
  match job.1 with
  | .invalidGlob pattern => (s.1, s.2 ++ [.invalidGlob pattern])
  | .file filePath pid =>
    let c : CallIn := ⟨filePath, pid, endpoint, worlds job.2⟩
    let (readStats, out) := captureSingleAppLog o s.1.readStats c
    ({ s.1 with readStats := readStats }, s.2 ++ [.captured c out])

/-- `AppLogM3.Run`; the `k`-th job runs in the `k`-th world. -/
def AppLogM3.run (endpoint : GoString) (glob : GoString → Option (List GoString))
    (worlds : Nat → CallWorld) (a : AppLogM3) : AppLogM3 × List FileResult :=
  (a.jobs glob).zipIdx.foldl (runJob o endpoint worlds) (a, [])

/-- The calls among the jobs. -/
def callsOf (endpoint : GoString) (worlds : Nat → CallWorld) (jobs : List (Job × Nat)) :
    List CallIn :=
  jobs.filterMap fun job => job.1.call endpoint (worlds job.2)

def FileResult.call : FileResult → Option (CallIn × Outcome)
  | .invalidGlob _ => none
  | .captured c out => some (c, out)

theorem foldl_runJob (endpoint : GoString) (worlds : Nat → CallWorld) (jobs : List (Job × Nat))
    (s : AppLogM3 × List FileResult) :
    (jobs.foldl (runJob o endpoint worlds) s).1.readStats =
        Keyed.final (captureSingleAppLog o) s.1.readStats (callsOf endpoint worlds jobs) ∧
      (jobs.foldl (runJob o endpoint worlds) s).2.filterMap FileResult.call =
        s.2.filterMap FileResult.call ++
          Keyed.trace (captureSingleAppLog o) s.1.readStats (callsOf endpoint worlds jobs) := by
  induction jobs generalizing s with
  | nil => exact ⟨rfl, (List.append_nil _).symm⟩
  | cons job jobs ih =>
    obtain ⟨job, k⟩ := job
    obtain ⟨hstats, hresults⟩ := ih (runJob o endpoint worlds s (job, k))
    rw [List.foldl_cons]
    cases job with
    | invalidGlob pattern =>
      refine ⟨hstats, hresults.trans ?_⟩
      rw [runJob, List.filterMap_append]
      exact congrArg (· ++ _) (List.append_nil _)
    | file filePath pid =>
      refine ⟨hstats, hresults.trans ?_⟩
      rw [runJob, List.filterMap_append, List.append_assoc]
      rfl

/-- `Run` makes the calls of its jobs, one after another. -/
theorem run_eq_trace (endpoint : GoString) (glob : GoString → Option (List GoString))
    (worlds : Nat → CallWorld) (a : AppLogM3) :
    (a.run o endpoint glob worlds).1.readStats = Keyed.final (captureSingleAppLog o) a.readStats
        (callsOf endpoint worlds (a.jobs glob).zipIdx) ∧
      (a.run o endpoint glob worlds).2.filterMap FileResult.call =
        Keyed.trace (captureSingleAppLog o) a.readStats
          (callsOf endpoint worlds (a.jobs glob).zipIdx) :=
  foldl_runJob o endpoint worlds (a.jobs glob).zipIdx (a, [])

end YcAgent.Capture.AppLogM3
