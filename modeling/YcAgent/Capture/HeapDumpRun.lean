import YcAgent.Capture.HeapDump

/-!
# The run of a heap dump

`Run` uploads a dump that is there or has one made, and removes the one that was made when it
returns. The removal is registered once the dump is open, so a dump that is written and cannot be
opened stays. A path may name one file for the JVM and another for the agent.
-/
namespace YcAgent.Capture.HeapDump

open Go Executils Executils.Background

def compressedHeapExtensions : List GoString :=
  [str "zip", str "gz", str "pigz", str "7z", str "xz", str "z", str "lzma", str "deflate",
    str "sz", str "lz4", str "zstd", str "bz2", str "tgz", str "tar", str "tar.gz"]

def isCompressedHeapFile (filePath : GoString) : Bool × GoString :=
  let ext := FilePath.trimPrefix (FilePath.ext filePath) (str ".")
  (compressedHeapExtensions.any fun compressedExt => decide (ext = compressedExt), ext)

def hdOut : GoString := str "heap_dump.out"

/-- The errors of the steps of a zip file. -/
structure Zipping where
  createErr : Option GoString
  entryErr : Option GoString
  copyErr : Option GoString
  closeErr : Option GoString

/-- How the steps of a run end. The first call of `heapDump` has the first tools, the retry the
second. `target` is the file that a path names for the agent, `written` the one for the JVM. -/
structure World where
  getwd : Except GoString GoString
  tempDir : GoString
  unix : Nat → Int
  tools : Nat → Tools
  linux : Bool
  openErr : GoString → Option GoString
  createErr : Option GoString
  copyErr : Option GoString
  seekErr : Option GoString
  zipping : Zipping
  postData : GoString → GoString × Bool
  target : GoString → Nat
  written : GoString → Nat

structure Result where
  msg : GoString
  ok : Bool

section Run

variable (t : HeapDump) (w : World)

/-- The path of a process' own root. -/
def procRoot (path : GoString) : GoString :=
  FilePath.joinPath [str "/proc", itoa t.pid, str "root", path]

/-- The error of `getPreCapturedDumpFile`. -/
def getPreCapturedDumpFile : Option GoString :=
  let err := w.openErr t.hdPath
  let err := if err.isSome ∧ w.linux = true then w.openErr (t.procRoot t.hdPath) else err
  err.or (w.createErr.or (w.copyErr.or w.seekErr))

/-- The path that is asked for. -/
def requestedPath (dir : GoString) (n : Nat) : GoString :=
  FilePath.joinPath [dir, hdOut ++ str "." ++ itoa t.pid ++ str "." ++ itoa (w.unix n)]

/-- Opens the dump of a call that succeeded: the path and the error, and the dump. -/
def openDump (path : GoString) : GoString × Option GoString × List Nat :=
  let dumps := [w.written path]
  match w.openErr path with
  | none => (path, none, dumps)
  | some err =>
    if w.linux then
      let path := t.procRoot path
      (path, (w.openErr path).map (str "failed to open heap dump file: " ++ ·), dumps)
    else (path, some (str "failed to open heap dump file: " ++ err), dumps)

/-- `captureDumpFile`, with the dumps that its successful calls wrote. -/
def captureDumpFile : Option (GoString × Option GoString × List Nat) :=
  match w.getwd with
  | .error err => some ([], some err, [])
  | .ok dir => do
    let (path, err) ← t.heapDump (w.tools 0) (requestedPath t w dir 0)
    match err with
    | none => return openDump t w path
    | some _ =>
      let (path, err) ← t.heapDump (w.tools 1) (requestedPath t w w.tempDir 1)
      match err with
      | none => return openDump t w path
      | some err => return ([], some err, [])

/-- The error of `CreateZipFile`. -/
def Zipping.createZipFile (z : Zipping) : Option GoString :=
  (z.createErr.map (str "failed to create zip file: " ++ ·)).or <|
    (z.entryErr.map (str "failed to create zip file: " ++ ·)).or <|
      (z.copyErr.map (str "failed to zip heap dump file: " ++ ·)).or
        (z.closeErr.map (str "failed to finish zipping heap dump file: " ++ ·))

def captureFailed (err : GoString) : Result := ⟨str "capture heap dump failed: " ++ err, false⟩

def uploadCapturedFile (contentEncoding : GoString) : Result :=
  let (msg, ok) := w.postData (str "hd&Content-Encoding=" ++ contentEncoding)
  ⟨msg, ok⟩

/-- What follows once the dump is open. -/
def deliver (isCompressed : Bool) (contentEncoding : GoString) : Result :=
  if isCompressed then uploadCapturedFile w contentEncoding
  else
    match w.zipping.createZipFile with
    | some err => captureFailed err
    | none => uploadCapturedFile w (str "zip")

/-- What follows behind `captureDumpFile`, up to the deferred removal. -/
def deliverDump (actualDumpPath : GoString) (err : Option GoString) (dumps : List Nat) :
    Result × List Nat :=
  match err with
  | some err => (captureFailed err, dumps)
  | none =>
    (deliver w false [],
      if actualDumpPath ≠ [] then dumps.erase (w.target actualDumpPath) else dumps)

/-- `Run`, with the dumps of its calls that are left; its error is always nil. -/
def run : Option (Result × List Nat) :=
  if 0 < t.hdPath.length then
    let (isCompressed, contentEncoding) := isCompressedHeapFile t.hdPath
    match getPreCapturedDumpFile t w with
    | some err => some (captureFailed err, [])
    | none => some (deliver w isCompressed contentEncoding, [])
  else if 0 < t.pid ∧ t.dump = true then do
    let (actualDumpPath, err, dumps) ← captureDumpFile t w
    return deliverDump w actualDumpPath err dumps
  else some (⟨str "skipped heap dump", false⟩, [])

def LeavesNoDump : Prop := ∃ result, run t w = some (result, [])

/-- The path of a call that succeeds. -/
def succeedsAt (dir : GoString) (n : Nat) : Option GoString :=
  match t.heapDump (w.tools n) (requestedPath t w dir n) with
  | some (path, none) => some path
  | _ => none

/-- The path of the first of both calls that succeeds, where a dump is made. -/
def dumped : Option GoString :=
  if t.hdPath = [] ∧ 0 < t.pid ∧ t.dump = true then
    match w.getwd with
    | .error _ => none
    | .ok dir => (succeedsAt t w dir 0).or (succeedsAt t w w.tempDir 1)
  else none

/-- The path that a dump is opened at. -/
def openedAt (path : GoString) : Option GoString :=
  if w.openErr path = none then some path
  else if w.linux = true ∧ w.openErr (t.procRoot path) = none then some (t.procRoot path)
  else none

/-- The dump can be opened, at a path that names it. -/
def Opens (path : GoString) : Prop :=
  ∃ actual, openedAt t w path = some actual ∧ actual ≠ [] ∧ w.target actual = w.written path

end Run

/-! ## What is left -/

section Left

variable {t : HeapDump} {w : World}

/-- A call ends with a path or with an error. -/
theorem heapDump_cases (t : HeapDump) (w : Tools) (requested : GoString) :
    (∃ path, t.heapDump w requested = some (path, none)) ∨
      ∃ err, t.heapDump w requested = some (requested, some err) := by
  rcases heapDump_spec t w requested with ⟨tool, out, -, -, hcall⟩ | ⟨-, hcall⟩
  · exact Or.inl ⟨_, hcall⟩
  · exact Or.inr hcall

/-- What a successful call wrote is handed on, with an error where it cannot be opened. -/
theorem openDump_eq (path : GoString) : ∃ actual err,
    openDump t w path = (actual, err, [w.written path]) ∧
      ∀ p, (err = none ∧ actual = p) ↔ openedAt t w path = some p := by
  unfold openDump openedAt
  cases hopen : w.openErr path with
  | none => exact ⟨path, none, rfl, fun p => by simp⟩
  | some err =>
    cases hlinux : w.linux with
    | false => exact ⟨path, _, rfl, fun p => by simp⟩
    | true =>
      refine ⟨t.procRoot path, _, rfl, fun p => ?_⟩
      cases hproc : w.openErr (t.procRoot path) with
      | none => simp
      | some err => simp

theorem captureDumpFile_cases (hhd : t.hdPath = []) (hdump : 0 < t.pid ∧ t.dump = true) :
    (∃ path, dumped t w = some path ∧ captureDumpFile t w = some (openDump t w path)) ∨
      (dumped t w = none ∧ ∃ err, captureDumpFile t w = some ([], some err, [])) := by
  unfold dumped captureDumpFile
  rw [if_pos ⟨hhd, hdump⟩]
  cases w.getwd with
  | error err => exact Or.inr ⟨rfl, err, rfl⟩
  | ok dir =>
    rcases heapDump_cases t (w.tools 0) (requestedPath t w dir 0) with ⟨path, hfirst⟩ | ⟨e, hfirst⟩
    · exact Or.inl ⟨path, by simp [succeedsAt, hfirst], by simp [hfirst]⟩
    · rcases heapDump_cases t (w.tools 1) (requestedPath t w w.tempDir 1) with
        ⟨path, hretry⟩ | ⟨e', hretry⟩
      · exact Or.inl ⟨path, by simp [succeedsAt, hfirst, hretry], by simp [hfirst, hretry]⟩
      · exact Or.inr ⟨by simp [succeedsAt, hfirst, hretry], e', by simp [hfirst, hretry]⟩

theorem erase_eq_nil_iff (dump file : Nat) : [dump].erase file = [] ↔ file = dump := by
  by_cases h : file = dump
  · simp [h]
  · have hne : dump ≠ file := fun heq => h heq.symm
    simp [h, List.erase_cons_tail, hne]

/-- The removal is registered for an open dump, and takes the file at its path. -/
theorem deliverDump_eq_nil_iff (actual : GoString) (err : Option GoString) (dump : Nat) :
    (deliverDump w actual err [dump]).2 = [] ↔
      err = none ∧ actual ≠ [] ∧ w.target actual = dump := by
  cases err with
  | some err => simp [deliverDump]
  | none =>
    unfold deliverDump
    by_cases hempty : actual = []
    · simp [hempty]
    · dsimp only
      rw [if_pos hempty, erase_eq_nil_iff]
      simp [hempty]

/-- A run that makes no dump leaves none. -/
theorem leavesNoDump_of_skipped (h : ¬ (t.hdPath = [] ∧ 0 < t.pid ∧ t.dump = true)) :
    LeavesNoDump t w := by
  unfold LeavesNoDump run
  by_cases hlen : 0 < t.hdPath.length
  · rw [if_pos hlen]
    dsimp only
    cases getPreCapturedDumpFile t w with
    | some err => exact ⟨_, rfl⟩
    | none => exact ⟨_, rfl⟩
  · have hhd : t.hdPath = [] := List.length_eq_zero_iff.mp (by omega)
    rw [if_neg hlen, if_neg fun hdump => h ⟨hhd, hdump⟩]
    exact ⟨_, rfl⟩

theorem leavesNoDump_of_capture (hhd : t.hdPath = []) (hdump : 0 < t.pid ∧ t.dump = true)
    {actual : GoString} {err : Option GoString} {dumps : List Nat}
    (hcapture : captureDumpFile t w = some (actual, err, dumps)) :
    LeavesNoDump t w ↔ (deliverDump w actual err dumps).2 = [] := by
  have hlen : ¬ 0 < t.hdPath.length := by
    rw [hhd]
    exact Nat.lt_irrefl 0
  unfold LeavesNoDump run
  rw [if_neg hlen, if_pos hdump, hcapture]
  constructor
  · rintro ⟨result, hrun⟩
    exact congrArg Prod.snd (Option.some.inj hrun)
  · intro hnil
    exact ⟨(deliverDump w actual err dumps).1, congrArg some (Prod.ext rfl hnil)⟩

/-- A run leaves no dump behind if and only if the dump of the call that succeeds, if one does,
can be opened at a path that names it. -/
theorem leavesNoDump_iff (t : HeapDump) (w : World) :
    LeavesNoDump t w ↔ ∀ path, dumped t w = some path → Opens t w path := by
  have hnever : ∀ path, (none : Option GoString) = some path → Opens t w path := by
    intro path hpath
    cases hpath
  by_cases hmade : t.hdPath = [] ∧ 0 < t.pid ∧ t.dump = true
  · obtain ⟨hhd, hdump⟩ := hmade
    rcases captureDumpFile_cases hhd hdump with ⟨path, hdumped, hcapture⟩ | ⟨hdumped, e, hcapture⟩
    · obtain ⟨actual, err, hopen, hat⟩ := openDump_eq (t := t) (w := w) path
      rw [leavesNoDump_of_capture hhd hdump (hcapture.trans (congrArg some hopen)),
        deliverDump_eq_nil_iff, hdumped]
      constructor
      · rintro ⟨herr, hne, htarget⟩ path' hpath
        cases hpath
        exact ⟨actual, (hat actual).mp ⟨herr, rfl⟩, hne, htarget⟩
      · intro h
        obtain ⟨actual', hopened, hne, htarget⟩ := h path rfl
        obtain ⟨herr, rfl⟩ := (hat actual').mpr hopened
        exact ⟨herr, hne, htarget⟩
    · rw [leavesNoDump_of_capture hhd hdump hcapture, hdumped]
      exact iff_of_true rfl hnever
  · have hnone : dumped t w = none := if_neg hmade
    rw [hnone]
    exact iff_of_true (leavesNoDump_of_skipped hmade) hnever

end Left

/-- `jcmd` succeeds, and the dump of another user cannot be opened. -/
def unreadable : World where
  getwd := .ok (str "/srv/yc")
  tempDir := str "/tmp"
  unix _ := 1700000000
  tools _ := { failover with jcmd := fun _ => .exits ⟨str "7:\n", 0, none, isSome_none_iff⟩ }
  linux := true
  openErr _ := some (str "permission denied")
  createErr := none
  copyErr := none
  seekErr := none
  zipping := ⟨none, none, none, none⟩
  postData _ := ([], true)
  target _ := 0
  written _ := 0

/-- The dump is left where it is. -/
theorem unreadable_stays :
    (run ⟨str "/jdk", 7, [], true⟩ unreadable).map Prod.snd = some [0] ∧
      ¬ ∀ (t : HeapDump) (w : World), LeavesNoDump t w := by
  have hleft : (run ⟨str "/jdk", 7, [], true⟩ unreadable).map Prod.snd = some [0] := rfl
  refine ⟨hleft, fun h => ?_⟩
  obtain ⟨result, hrun⟩ := h ⟨str "/jdk", 7, [], true⟩ unreadable
  rw [hrun] at hleft
  cases hleft

end YcAgent.Capture.HeapDump
