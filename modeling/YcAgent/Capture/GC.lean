import YcAgent.Base.Strconv

/-!
# The glob pattern of a GC log

`GetGlobPatternFromGCPath` rewrites the tokens a JVM expands in the path of its GC
log, one kind of token after the other, into wildcards.
-/
namespace YcAgent.Capture

open Go

def getGlobPatternFromGCPath (gcPath : GoString) (pid : Int) : GoString :=
  let pattern := replaceFirst (str "%pid") (itoa pid) gcPath
  let pattern := replaceAll pattern (str "%seq") (str "???")
  let pattern := replaceAll pattern (str "%tick") (str "*")
  let pattern := replaceAll pattern (str "%uid") (str "*")
  let pattern := replaceAll pattern (str "%last") (str "*")
  let pattern := replaceFirst (str "%p") (str "*" ++ itoa pid) pattern
  let pattern := replaceAll pattern (str "%t") (str "????-??-??_??-??-??")
  let pattern := replaceAll pattern (str "%Y") (str "????")
  let pattern := replaceAll pattern (str "%y") (str "??")
  let pattern := replaceAll pattern (str "%m") (str "??")
  let pattern := replaceAll pattern (str "%d") (str "??")
  let pattern := replaceAll pattern (str "%H") (str "??")
  let pattern := replaceAll pattern (str "%M") (str "??")
  replaceAll pattern (str "%S") (str "??")

example : getGlobPatternFromGCPath (str "/tmp/buggyapp-%pid-%t.log") 12 =
    str "/tmp/buggyapp-12-????-??-??_??-??-??.log" := by decide

end YcAgent.Capture
