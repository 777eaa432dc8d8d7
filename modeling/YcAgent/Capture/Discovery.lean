import YcAgent.Base.Regex
import YcAgent.Base.FilePath
import YcAgent.Capture.OpenedFiles

/-!
# The logs that a process holds open

Of the files that the process holds open those are taken that have the name of a log and end
in bytes that are mostly printable. The same file may be open under several descriptors, and
nothing on the way looks for that.
-/
namespace YcAgent.Capture.Discovery

open Go Go.FilePath OpenedFiles

def notNewline (b : Byte) : Bool := b ≠ newline

/-- `.*log.*\..*`. -/
def logDotPattern : List (Regex.Piece Byte) :=
  [.many notNewline, .lit (str "log"), .many notNewline, .lit [dot], .many notNewline]

/-- The first pattern, `.*\.log$`, is a test of how the name ends. -/
def matchLogPattern (s : GoString) : Bool :=
  hasSuffix s (str ".log") || (Regex.find logDotPattern s).isSome

def getLastNBytes (content : GoString) (n : Nat) : GoString := content.drop (content.length - n)

/-- The quotient of two numbers up to a thousand is above 0.7 where it rounds to more. -/
def isMostlyASCII (b : GoString) : Bool :=
  let asciiCount := b.countP fun c => 32 ≤ c ∧ c < 127
  decide (7 * b.length < 10 * asciiCount)

/-- The test of `DiscoverOpenedLogFilesByProcess`; `read` is what can be read at a path. -/
def isLog (read : GoString → Option GoString) (filePath : GoString) : Bool :=
  matchLogPattern (base filePath) &&
    match read filePath with
    | none => false
    | some content => isMostlyASCII (getLastNBytes content 1000)

/-- `GetOpenedFilesByProcess`, where the process is there if it has a table. -/
def getOpenedFilesByProcess (pid : Int) (table : Option Table) : Except GoString (List GoString) :=
  match table with
  | none => .error (str "stat " ++ dir pid ++ str ": no such file or directory")
  | some t => .ok t.openedFiles

def discoverOpenedLogFilesByProcess (read : GoString → Option GoString) (pid : Int)
    (table : Option Table) : Except GoString (List GoString) :=
  match getOpenedFilesByProcess pid table with
  | .error err => .error err
  | .ok openedFiles => .ok (openedFiles.filter (isLog read))

/-- No log is open under two descriptors. -/
def Distinct (read : GoString → Option GoString) (t : Table) : Prop :=
  ∀ d ∈ t.entries, ∀ e ∈ t.entries, isLog read d.2 = true → d.2 = e.2 → d = e

/-- The list has a log once for each of its descriptors. -/
theorem nodup_filter_iff (read : GoString → Option GoString) (t : Table) :
    (t.openedFiles.filter (isLog read)).Nodup ↔ Distinct read t := by
  have hperm := (openedFiles_perm t).filter (isLog read)
  rw [hperm.nodup_iff, List.filter_map]
  have hentries : t.entries.Nodup := List.Nodup.of_map _ t.nodup
  constructor
  · intro h d hd e he hlog hsame
    have hmem : ∀ x ∈ t.entries, isLog read x.2 = true →
        x ∈ t.entries.filter (isLog read ∘ Prod.snd) :=
      fun x hx hxlog => List.mem_filter.mpr ⟨hx, hxlog⟩
    exact List.inj_on_of_nodup_map h (hmem d hd hlog) (hmem e he (hsame ▸ hlog)) hsame
  · intro h
    refine List.Nodup.map_on (fun d hd e he hsame => ?_) (hentries.filter _)
    obtain ⟨hd, hlog⟩ := List.mem_filter.mp hd
    exact h d hd e (List.mem_filter.mp he).1 hlog hsame

end YcAgent.Capture.Discovery
