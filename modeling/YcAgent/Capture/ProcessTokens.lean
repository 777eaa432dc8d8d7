import YcAgent.Base.Strconv

/-!
# Process tokens

A configured token is `token` or `token$appName`. Both versions of
`GetProcessIds` cut the application name off at the first dollar sign and read
the rest either as a pid or as text to look for.
-/
namespace YcAgent.Capture

open Go

abbrev ProcessToken := GoString
abbrev ProcessTokens := List ProcessToken

/-- The token in front of the first `$` and the application name behind it. -/
def cutAppName (t : ProcessToken) : GoString × GoString :=
  let index := index t [dollar]
  if 0 ≤ index then (t.take index.toNat, t.drop (index.toNat + 1)) else (t, [])

def tokenText (t : ProcessToken) : GoString := (cutAppName t).1
def tokenAppName (t : ProcessToken) : GoString := (cutAppName t).2

example : cutAppName (str "1234$BuggyApp") = (str "1234", str "BuggyApp") := by decide

end YcAgent.Capture
