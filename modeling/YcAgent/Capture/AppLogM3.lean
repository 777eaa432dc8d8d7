import YcAgent.Base.Run
import YcAgent.Base.Slice
import YcAgent.Capture.AppLog

/-!
# The incremental reader of application logs

One `AppLogM3` keeps a position per file and copies what was appended since the last
call. A call is cut into its stat, its open with the seek, the creation of the
destination, the chunks of the copy, the sync and the post, and the processes that
write the logs may run between any two of them.
-/
namespace YcAgent.Capture.AppLogM3

open Go

structure ReadStat where
  filePath : GoString
  fileSize : Nat
  readPosition : Nat
  deriving DecidableEq

abbrev ReadStats := GoMap GoString ReadStat

/-- A call that reads: `size` is what its stat saw, `start` where the copy began, `dstPath` the
destination file once it is there, and `dst` its content. -/
structure Reading where
  filePath : GoString
  pid : Int
  size : Nat
  start : Nat
  dstPath : GoString
  dst : GoString
  deriving DecidableEq

/-- The offset of the source file. -/
def Reading.offset (r : Reading) : Nat := r.start + r.dst.length

/-- How far the call in progress is. -/
inductive Call where
  | idle
  | statted (filePath : GoString) (pid : Int) (size : Nat)
  | opened (r : Reading)
  | copying (r : Reading)
  | copied (r : Reading)
  | synced (r : Reading)
  deriving DecidableEq

/-- The copy whose outcome is not known yet. -/
def Call.pending : Call → Option Reading
  | .copied r | .synced r => some r
  | _ => none

/-- What the two seeks of a call do: the first one works, only the second one works, none. -/
inductive Seek where
  | ok
  | restart
  | fail
  deriving DecidableEq

inductive Event where
  | initialized (filePath : GoString) (size : Nat)
  | copied (r : Reading)
  | returned (r : Reading) (ok : Bool)
  deriving DecidableEq

structure State where
  files : GoString → GoString
  readStats : ReadStats
  call : Call
  history : List Event

inductive Action where
  | append (path bytes : GoString)
  | rewrite (path bytes : GoString)
  | stat (filePath : GoString) (pid : Int)
  | statFails
  | openFails
  | openSeek (seek : Seek)
  | createFails
  | create (names : List GoString)
  | read (n : Nat)
  | copyFails
  | copyEnds
  | syncFails
  | sync
  | post (w : PostWorld)

/-- The actions that end a call before anything was recorded. -/
def Action.abandons : Action → Bool
  | .openFails | .openSeek .fail | .createFails | .copyFails => true
  | _ => false

def init (files : GoString → GoString) : State := ⟨files, ∅, .idle, []⟩

/-- Where the copy starts: at the beginning of a file that looks rotated, else where the
last one ended; `none` when the seeks fail. -/
def seekStart (readStat : ReadStat) (size : Nat) (seek : Seek) : Option Nat :=
  if size < readStat.fileSize then some 0
  else
    match seek with
    | .ok => some readStat.readPosition
    | .restart => some 0
    | .fail => none

theorem seekStart_eq_none {readStat : ReadStat} {size : Nat} {seek : Seek}
    (h : seekStart readStat size seek = none) : seek = .fail := by
  unfold seekStart at h
  split at h
  · cases h
  · cases seek
    · cases h
    · cases h
    · rfl

def openSeek (s : State) (filePath : GoString) (pid : Int) (size : Nat) (seek : Seek) : State :=
  match s.readStats.lookup filePath with
  | none =>
    { s with
      readStats := s.readStats.insert filePath ⟨filePath, size, size⟩
      call := .idle
      history := s.history ++ [.initialized filePath size] }
  | some readStat =>
    match seekStart readStat size seek with
    | none => { s with call := .idle }
    | some start => { s with call := .opened ⟨filePath, pid, size, start, [], []⟩ }

/-- The bytes one read of at most `n` bytes returns. -/
def chunk (files : GoString → GoString) (r : Reading) (n : Nat) : GoString :=
  ((files r.filePath).drop r.offset).take n

/-- The entry after a copy: the position where the copy ended and the size of the stat. -/
def Reading.readStat (r : Reading) : ReadStat := ⟨r.filePath, r.size, r.offset⟩

def Reading.dt (r : Reading) : GoString :=
  str "applog&logName=" ++ base r.filePath ++ str "&pid=" ++ itoa r.pid

/-- The destination is created in a directory with the files `names`. -/
def Reading.create (r : Reading) (names : List GoString) : Reading :=
  { r with dstPath := AppLog.generateUniqueLogPath names (base r.filePath) }

section Step

variable (o : Options) (endpoint : GoString)

def Reading.post (r : Reading) (w : PostWorld) : Posted :=
  postData o w endpoint r.dt (some ⟨r.dstPath, r.dst⟩)

def step (s : State) : Action → Option State
  | .append path bytes =>
    some { s with files := Function.update s.files path (s.files path ++ bytes) }
  | .rewrite path bytes => some { s with files := Function.update s.files path bytes }
  | .stat filePath pid =>
    if s.call = .idle then
      some { s with call := .statted filePath pid (s.files filePath).length }
    else none
  | .statFails => if s.call = .idle then some s else none
  | .openFails =>
    match s.call with
    | .statted _ _ _ => some { s with call := .idle }
    | _ => none
  | .openSeek seek =>
    match s.call with
    | .statted filePath pid size => some (openSeek s filePath pid size seek)
    | _ => none
  | .createFails =>
    match s.call with
    | .opened _ => some { s with call := .idle }
    | _ => none
  | .create names =>
    match s.call with
    | .opened r => some { s with call := .copying (r.create names) }
    | _ => none
  | .read n =>
    match s.call with
    | .copying r =>
      if chunk s.files r n = [] then none
      else some { s with call := .copying { r with dst := r.dst ++ chunk s.files r n } }
    | _ => none
  | .copyFails =>
    match s.call with
    | .copying _ => some { s with call := .idle }
    | _ => none
  | .copyEnds =>
    match s.call with
    | .copying r =>
      if (s.files r.filePath).length ≤ r.offset then
        some { s with
          readStats := s.readStats.insert r.filePath r.readStat
          call := .copied r
          history := s.history ++ [.copied r] }
      else none
    | _ => none
  | .syncFails =>
    match s.call with
    | .copied r => some { s with call := .idle, history := s.history ++ [.returned r false] }
    | _ => none
  | .sync =>
    match s.call with
    | .copied r => some { s with call := .synced r }
    | _ => none
  | .post w =>
    match s.call with
    | .synced r =>
      some { s with
        call := .idle
        history := s.history ++ [.returned r (r.post o endpoint w).ok] }
    | _ => none

/-- Everything one step can do. -/
inductive Moves (s : State) : Action → State → Prop where
  | append (path bytes : GoString) : Moves s (.append path bytes)
      { s with files := Function.update s.files path (s.files path ++ bytes) }
  | rewrite (path bytes : GoString) : Moves s (.rewrite path bytes)
      { s with files := Function.update s.files path bytes }
  | stat (filePath : GoString) (pid : Int) (hcall : s.call = .idle) : Moves s (.stat filePath pid)
      { s with call := .statted filePath pid (s.files filePath).length }
  | statFails (hcall : s.call = .idle) : Moves s .statFails s
  | abandons {a : Action} (ha : a.abandons = true) (hcall : s.call.pending = none) :
      Moves s a { s with call := .idle }
  | initializes {filePath : GoString} {pid : Int} {size : Nat} (seek : Seek)
      (hcall : s.call = .statted filePath pid size) (hlookup : s.readStats.lookup filePath = none) :
      Moves s (.openSeek seek)
        { s with
          readStats := s.readStats.insert filePath ⟨filePath, size, size⟩
          call := .idle
          history := s.history ++ [.initialized filePath size] }
  | opens {filePath : GoString} {pid : Int} {size start : Nat} {readStat : ReadStat} (seek : Seek)
      (hcall : s.call = .statted filePath pid size)
      (hlookup : s.readStats.lookup filePath = some readStat)
      (hstart : seekStart readStat size seek = some start) :
      Moves s (.openSeek seek) { s with call := .opened ⟨filePath, pid, size, start, [], []⟩ }
  | creates {r : Reading} (names : List GoString) (hcall : s.call = .opened r) :
      Moves s (.create names) { s with call := .copying (r.create names) }
  | reads {r : Reading} (n : Nat) (hcall : s.call = .copying r) :
      Moves s (.read n) { s with call := .copying { r with dst := r.dst ++ chunk s.files r n } }
  | copies {r : Reading} (hcall : s.call = .copying r)
      (hend : (s.files r.filePath).length ≤ r.offset) : Moves s .copyEnds
        { s with
          readStats := s.readStats.insert r.filePath r.readStat
          call := .copied r
          history := s.history ++ [.copied r] }
  | syncFails {r : Reading} (hcall : s.call = .copied r) : Moves s .syncFails
      { s with call := .idle, history := s.history ++ [.returned r false] }
  | syncs {r : Reading} (hcall : s.call = .copied r) : Moves s .sync
      { s with call := .synced r }
  | posts {r : Reading} (w : PostWorld) (hcall : s.call = .synced r) : Moves s (.post w)
      { s with
        call := .idle
        history := s.history ++ [.returned r (r.post o endpoint w).ok] }

variable {o endpoint}

theorem moves_of_step {s t : State} {a : Action} (h : step o endpoint s a = some t) :
    Moves o endpoint s a t := by
  cases a with
  | append path bytes => cases h; exact .append path bytes
  | rewrite path bytes => cases h; exact .rewrite path bytes
  | stat filePath pid =>
    simp only [step] at h
    split at h
    · rename_i hcall
      cases h
      exact .stat filePath pid hcall
    · cases h
  | statFails =>
    simp only [step] at h
    split at h
    · rename_i hcall
      cases h
      exact .statFails hcall
    · cases h
  | openSeek seek =>
    simp only [step] at h
    split at h
    · rename_i filePath pid size hcall
      cases h
      unfold openSeek
      split
      · rename_i hlookup
        exact .initializes seek hcall hlookup
      · rename_i readStat hlookup
        split
        · rename_i hstart
          cases seekStart_eq_none hstart
          exact .abandons rfl (by rw [hcall]; rfl)
        · rename_i start hstart
          exact .opens seek hcall hlookup hstart
    · cases h
  | create names =>
    simp only [step] at h
    split at h
    · rename_i r hcall
      cases h
      exact .creates names hcall
    · cases h
  | read n =>
    simp only [step] at h
    split at h
    · rename_i r hcall
      split at h
      · cases h
      · cases h
        exact .reads n hcall
    · cases h
  | copyEnds =>
    simp only [step] at h
    split at h
    · rename_i r hcall
      split at h
      · rename_i hend
        cases h
        exact .copies hcall hend
      · cases h
    · cases h
  | syncFails =>
    simp only [step] at h
    split at h
    · rename_i r hcall
      cases h
      exact .syncFails hcall
    · cases h
  | sync =>
    simp only [step] at h
    split at h
    · rename_i r hcall
      cases h
      exact .syncs hcall
    · cases h
  | post w =>
    simp only [step] at h
    split at h
    · rename_i r hcall
      cases h
      exact .posts w hcall
    · cases h
  | openFails | createFails | copyFails =>
    simp only [step] at h
    split at h
    · rename_i hcall
      cases h
      exact .abandons rfl (by rw [hcall]; rfl)
    · cases h

end Step

end YcAgent.Capture.AppLogM3
