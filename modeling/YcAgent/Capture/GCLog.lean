import YcAgent.Base.FilePath
import YcAgent.Base.Scanner
import YcAgent.Base.SortSlice
import YcAgent.Capture.GC

/-!
# Collecting a GC log

`ProcessGCLogFile` looks for the log in three ways, one behind the other, and opens the
output file before it knows whether there is anything to copy. What the operating system,
docker and the glob package answer depends on a state that the calls change.
-/
namespace YcAgent.Capture

open Go Go.FilePath

/-- An error, and what `os.IsNotExist` says of it. -/
structure OsError where
  text : GoString
  notExist : Bool
  deriving DecidableEq

structure FileInfo where
  name : GoString
  modTime : Int
  isDir : Bool
  deriving DecidableEq

structure System (σ : Type) where
  linux : Bool
  tempDir : GoString
  glob : GoString → σ → Except OsError (List GoString)
  stat : GoString → σ → Except OsError FileInfo
  lstat : GoString → σ → Except OsError FileInfo
  openFile : GoString → σ → Option OsError
  readDirNames : GoString → σ → Except OsError (List GoString)
  create : GoString → σ → Except OsError σ
  /-- `io.Copy` from a file to the end of an output file. -/
  appendFrom : GoString → GoString → σ → Option OsError × σ
  dockerCopy : GoString → GoString → σ → Option OsError × σ
  dockerExecute : List GoString → σ → Except OsError GoString

/-- `regexp.MustCompile`: the function `FindStringSubmatch`, none when it panics. -/
abbrev Compile := GoString → Option (GoString → List GoString)

/-- The results of `ProcessGCLogFile` and the state it leaves; `gc` is open on the named file. -/
structure Collected (σ : Type) where
  gc : Option GoString
  err : Option OsError
  state : σ

section ProcessGCLogFile

variable {σ : Type} (sys : System σ) (compile : Compile) (sorter : SortSlice)

/-- `GetLatestFileFromGlobPattern`. -/
def getLatestFileFromGlobPattern (globPattern : GoString) (s : σ) : GoString × Option OsError :=
  match sys.glob globPattern s with
  | .error err => ([], some err)
  | .ok globFiles =>
    match sorter.sort (fun a b => decide (base b < base a)) globFiles with
    | [] => ([], some ⟨str "no file found from glob " ++ globPattern, false⟩)
    | file :: _ => (file, none)

def fileExists (filename : GoString) (s : σ) : Bool :=
  match sys.stat filename s with
  | .error _ => false
  | .ok info => !info.isDir

def newer (a b : FileInfo) : Bool := decide (b.modTime < a.modTime)

/-- None is the panic on a file that is gone when its information is read. -/
def findLatestFileInRotatingLogFiles (gcPath : GoString) (s : σ) : Option GoString :=
  match sys.glob (gcPath ++ str ".*") s with
  | .error _ => some gcPath
  | .ok files =>
    let files := if fileExists sys gcPath s then files ++ [gcPath] else files
    (files.mapM fun file => (sys.lstat file s).toOption).map fun fileInfos =>
      match sorter.sort newer fileInfos with
      | [] => gcPath
      | info :: _ => joinPath [dir gcPath, info.name]

/-- The file that the tokens in the path lead to. -/
def resolveTokens (gcPath : GoString) (pid : Int) (s : σ) : GoString :=
  if contains gcPath (str "%") then
    let globPattern := getGlobPatternFromGCPath gcPath pid
    let (latestFile, err) := getLatestFileFromGlobPattern sys sorter globPattern s
    let gcPath := if err = none ∧ gcPath ≠ latestFile then latestFile else gcPath
    if latestFile = [] then
      let (latestFile, err) := getLatestFileFromGlobPattern sys sorter (globPattern ++ str ".*") s
      if err = none ∧ gcPath ≠ latestFile then trimSuffix latestFile (ext latestFile) else gcPath
    else gcPath
  else gcPath

def procRoot (pid : Int) (file : GoString) : GoString :=
  joinPath [str "/proc", itoa pid, str "root", file]

/-- `copyFile(gc, file, pid)` with `gc` open on `out`. -/
def copyFile (out file : GoString) (pid : Int) (s : σ) : Option OsError × σ :=
  match sys.openFile file s with
  | none => sys.appendFrom out file s
  | some err =>
    if sys.linux then
      match sys.openFile (procRoot pid file) s with
      | none => sys.appendFrom out (procRoot pid file) s
      | some err => (some err, s)
    else (some err, s)

/-- How the first attempt ends: with the results of the function, or with an error to go on. -/
inductive FirstAttempt (σ : Type) where
  | returned (c : Collected σ)
  | failed (gc : Option GoString) (err : OsError) (s : σ)

def firstAttempt (path out dockerID : GoString) (pid : Int) (s : σ) : FirstAttempt σ :=
  if dockerID ≠ [] then
    match sys.dockerCopy out (dockerID ++ str ":" ++ path) s with
    | (none, s) =>
      match sys.openFile out s with
      | none => .returned ⟨some out, none, s⟩
      | some err => .returned ⟨none, some err, s⟩
    | (some err, s) => .failed none err s
  else
    match sys.create out s with
    | .error err => .returned ⟨none, some err, s⟩
    | .ok s =>
      match copyFile sys out path pid s with
      | (none, s) => .returned ⟨some out, none, s⟩
      | (some err, s) => .failed (some out) err s

/-- The names in the directory of the log. -/
def directoryNames (path dockerID : GoString) (s : σ) : Except OsError (List GoString) :=
  let d := dir path
  if dockerID ≠ [] then
    (sys.dockerExecute [dockerID, str "ls", str "-1", d] s).map fun output =>
      (scannedLines output).map trimSpace
  else
    match sys.openFile d s with
    | some err => .error err
    | none => sys.readDirNames d s

/-- The groups of the last name of a current log, and the indices of the other logs. -/
structure Rotation where
  rf : List GoString
  files : List Int

def rotationName (re reo : GoString → List GoString) (r : Rotation) (f : GoString) : Rotation :=
  if 1 < (re f).length then { r with rf := re f }
  else if 1 < (reo f).length then
    let (p, err) := atoiResult ((reo f).getD 1 [])
    if err ≠ none then r else { r with files := r.files ++ [p] }
  else r

/-- None is the panic of a log name that is no regular expression. -/
def rotation (path : GoString) (fs : List GoString) : Option Rotation := do
  let re ← compile (base path ++ str "\\.([0-9]+?)\\.current")
  let reo ← compile (base path ++ str "\\.([0-9]+)")
  return fs.foldl (rotationName re reo) ⟨[], []⟩

/-- The log in front of the current one; empty when there is none. -/
def previousLog (path : GoString) (p : Int) (files : List Int) : GoString :=
  if files.length = 1 then path ++ str "." ++ itoa (files.getD 0 0)
  else if 1 < files.length then
    let files := (files ++ [p]).mergeSort fun a b => decide (a ≤ b)
    match files.findIdx? fun file => file = p with
    | none => []
    | some index =>
      if 1 ≤ index then path ++ str "." ++ itoa (files.getD (index - 1) 0)
      else path ++ str "." ++ itoa (files.getD (files.length - 1) 0)
  else []

/-- Copies one of the rotated logs behind what is in `out`. -/
def collectLog (out dockerID suffix log : GoString) (pid : Int) (s : σ) : Option OsError × σ :=
  if dockerID ≠ [] then
    let tmp := joinPath [sys.tempDir, out ++ suffix]
    match sys.dockerCopy tmp (dockerID ++ str ":" ++ log) s with
    | (none, s) => copyFile sys out tmp pid s
    | (some err, s) => (some err, s)
  else copyFile sys out log pid s

/-- The state behind the copy of the previous log, whatever came of it. -/
def collectPrevious (path out dockerID : GoString) (pid p : Int) (files : List Int) (s : σ) : σ :=
  let preLog := previousLog path p files
  if 0 < preLog.length then (collectLog sys out dockerID (str ".pre") preLog pid s).2 else s

def collectCurrent (path out dockerID : GoString) (pid : Int) (rf : List GoString) (s : σ) :
    Option OsError × σ :=
  collectLog sys out dockerID (str ".cur") (joinPath [dir path, rf.getD 0 []]) pid s

def errNoCurrent : OsError :=
  ⟨str "can not find the current log file, file does not exist", false⟩

/-- The text `NumError` has for digits. -/
def atoiError (text : GoString) : NumError → OsError
  | .errSyntax => ⟨str "strconv.Atoi: parsing \"" ++ text ++ str "\": invalid syntax", false⟩
  | .errRange => ⟨str "strconv.Atoi: parsing \"" ++ text ++ str "\": value out of range", false⟩

/-- The output file, opened now unless it is open. -/
def ensureOpen (gc : Option GoString) (out : GoString) (s : σ) : Except OsError σ :=
  match gc with
  | some _ => .ok s
  | none => sys.create out s

/-- The second attempt: the previous log and the current one of a rotation. -/
def secondAttempt (gc : Option GoString) (path out dockerID : GoString) (pid : Int) (r : Rotation)
    (s : σ) : Collected σ :=
  if r.rf.length < 2 then ⟨gc, some errNoCurrent, s⟩
  else
    let (p, err) := atoiResult (r.rf.getD 1 [])
    match err with
    | some err => ⟨gc, some (atoiError (r.rf.getD 1 []) err), s⟩
    | none =>
      match ensureOpen sys gc out s with
      | .error err => ⟨none, some err, s⟩
      | .ok s =>
        let s := collectPrevious sys path out dockerID pid p r.files s
        let (err, s) := collectCurrent sys path out dockerID pid r.rf s
        ⟨some out, err, s⟩

/-- None is a panic. -/
def processGCLogFile (gcPath out dockerID : GoString) (pid : Int) (s : σ) :
    Option (Collected σ) :=
  if gcPath.length ≤ 0 then some ⟨none, none, s⟩
  else
    match findLatestFileInRotatingLogFiles sys sorter (resolveTokens sys sorter gcPath pid s) s with
    | none => none
    | some path =>
      match firstAttempt sys path out dockerID pid s with
      | .returned c => some c
      | .failed gc err s =>
        if err.notExist = false then some ⟨gc, some err, s⟩
        else
          match directoryNames sys path dockerID s with
          | .error err => some ⟨none, some err, s⟩
          | .ok fs =>
            (rotation compile path fs).map fun r =>
              secondAttempt sys gc path out dockerID pid r s

variable {sys compile sorter}

theorem copyFile_of_open {out file : GoString} {pid : Int} {s : σ}
    (h : sys.openFile file s = none) : copyFile sys out file pid s = sys.appendFrom out file s := by
  rw [copyFile, h]

theorem firstAttempt_of_create_error {path out : GoString} {pid : Int} {s : σ} {err : OsError}
    (h : sys.create out s = .error err) :
    firstAttempt sys path out [] pid s = .returned ⟨none, some err, s⟩ := by
  rw [firstAttempt, if_neg (fun hdocker => hdocker rfl), h]

theorem firstAttempt_of_copied {path out : GoString} {pid : Int} {s s₁ : σ}
    (hcreate : sys.create out s = .ok s₁) (hcopy : (copyFile sys out path pid s₁).1 = none) :
    firstAttempt sys path out [] pid s =
      .returned ⟨some out, none, (copyFile sys out path pid s₁).2⟩ := by
  rw [firstAttempt, if_neg (fun hdocker => hdocker rfl), hcreate]
  simp only
  generalize copyFile sys out path pid s₁ = copied at hcopy ⊢
  obtain ⟨err, s₂⟩ := copied
  obtain rfl : err = none := hcopy
  rfl

theorem findLatest_of_infos {gcPath : GoString} {s : σ} {files : List GoString}
    {infos : List FileInfo} (hglob : sys.glob (gcPath ++ str ".*") s = .ok files)
    (hmissing : fileExists sys gcPath s = false)
    (hinfos : (files.mapM fun file => (sys.lstat file s).toOption) = some infos) :
    findLatestFileInRotatingLogFiles sys sorter gcPath s =
      some (match sorter.sort newer infos with
        | [] => gcPath
        | info :: _ => joinPath [dir gcPath, info.name]) := by
  rw [findLatestFileInRotatingLogFiles, hglob]
  simp only [hmissing, Bool.false_eq_true, if_false, hinfos, Option.map_some]

theorem getLatest_mem {pattern file : GoString} {s : σ}
    (h : getLatestFileFromGlobPattern sys sorter pattern s = (file, none)) :
    ∃ files, sys.glob pattern s = .ok files ∧ file ∈ files := by
  unfold getLatestFileFromGlobPattern at h
  cases hglob : sys.glob pattern s with
  | error err =>
    rw [hglob] at h
    cases h
  | ok files =>
    rw [hglob] at h
    refine ⟨files, rfl, ?_⟩
    simp only at h
    split at h
    · cases h
    · rename_i first rest hsorted
      obtain ⟨rfl, _⟩ := Prod.mk.inj h
      exact (sorter.mem_sort _ files first).mp (hsorted ▸ List.mem_cons_self)

/-- The path itself, the latest match, or the latest match of a rotation without its ending. -/
theorem resolveTokens_cases (sys : System σ) (sorter : SortSlice) (gcPath : GoString) (pid : Int)
    (s : σ) :
    resolveTokens sys sorter gcPath pid s = gcPath ∨
      getLatestFileFromGlobPattern sys sorter (getGlobPatternFromGCPath gcPath pid) s =
        (resolveTokens sys sorter gcPath pid s, none) ∨
      ∃ file, getLatestFileFromGlobPattern sys sorter
          (getGlobPatternFromGCPath gcPath pid ++ str ".*") s = (file, none) ∧
        resolveTokens sys sorter gcPath pid s = trimSuffix file (ext file) := by
  unfold resolveTokens
  by_cases htokens : contains gcPath (str "%") = true
  · simp only [if_pos htokens]
    generalize hfirst : getLatestFileFromGlobPattern sys sorter
      (getGlobPatternFromGCPath gcPath pid) s = first
    generalize hsecond : getLatestFileFromGlobPattern sys sorter
      (getGlobPatternFromGCPath gcPath pid ++ str ".*") s = second
    obtain ⟨file, err⟩ := first
    obtain ⟨file', err'⟩ := second
    simp only
    have hkept : (if err = none ∧ gcPath ≠ file then file else gcPath) = gcPath ∨
        (file, err) = (if err = none ∧ gcPath ≠ file then file else gcPath, none) := by
      by_cases hnew : err = none ∧ gcPath ≠ file
      · rw [if_pos hnew, hnew.1]
        exact Or.inr rfl
      · rw [if_neg hnew]
        exact Or.inl rfl
    by_cases hempty : file = []
    · simp only [if_pos hempty]
      by_cases hnew : err' = none ∧ (if err = none ∧ gcPath ≠ file then file else gcPath) ≠ file'
      · rw [if_pos hnew, hnew.1]
        exact Or.inr (Or.inr ⟨file', rfl, rfl⟩)
      · rw [if_neg hnew]
        exact hkept.imp_right Or.inl
    · simp only [if_neg hempty]
      exact hkept.imp_right Or.inl
  · rw [if_neg htokens]
    exact Or.inl rfl

theorem resolveTokens_of_not_mem {gcPath : GoString} (h : (37 : Byte) ∉ gcPath) {pid : Int}
    {s : σ} :
    resolveTokens sys sorter gcPath pid s = gcPath := by
  have hno : ¬ contains gcPath (str "%") := by
    rw [contains_iff]
    intro hin
    exact h (hin.subset List.mem_cons_self)
  rw [resolveTokens, if_neg hno]

theorem processGCLogFile_of_path {gcPath out dockerID path : GoString} {pid : Int} {s : σ}
    (hne : gcPath ≠ [])
    (hpath : findLatestFileInRotatingLogFiles sys sorter (resolveTokens sys sorter gcPath pid s) s =
      some path) :
    processGCLogFile sys compile sorter gcPath out dockerID pid s =
      match firstAttempt sys path out dockerID pid s with
      | .returned c => some c
      | .failed gc err s =>
        if err.notExist = false then some ⟨gc, some err, s⟩
        else
          match directoryNames sys path dockerID s with
          | .error err => some ⟨none, some err, s⟩
          | .ok fs =>
            (rotation compile path fs).map fun r =>
              secondAttempt sys gc path out dockerID pid r s := by
  have hlen : ¬ gcPath.length ≤ 0 := by
    intro h
    exact hne (List.length_eq_zero_iff.mp (Nat.le_zero.mp h))
  rw [processGCLogFile, if_neg hlen, hpath]

end ProcessGCLogFile

/-! ## The callers -/

inductive Attempt where
  | jstat
  | jattach
  | tmpJattach
  deriving DecidableEq

/-- The attempts of `GC.Run` behind `ProcessGCLogFile`: `opened` says which of them give a
file, `copied` whether the agent can be copied to a temporary path. -/
def GC.attempts (gc : Option GoString) (pid : Int) (opened : Attempt → Bool) (copied : Bool) :
    List Attempt :=
  if gc = none ∧ 0 < pid then
    .jstat :: if opened .jstat then []
      else .jattach :: if opened .jattach then [] else if copied then [.tmpJattach] else []
  else []

/-- The attempts of `uploadGCLogM3`: jattach follows when jstat does not start or ends badly. -/
def uploadGCLogM3Attempts (gc : Option GoString) (err : Option OsError) (started waited : Bool) :
    List Attempt :=
  if gc = none ∨ err ≠ none then
    .jstat :: if started && waited then [] else [.jattach]
  else []

end YcAgent.Capture
