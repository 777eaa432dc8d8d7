import Mathlib.Data.List.TakeWhile
import YcAgent.Base.Strings

/-!
# `bufio.Scanner` over lines

A scanner with the default buffer gives up at the first line that does not fit
in it: the lines before it are delivered, the rest of the input is not.
-/
namespace Go

/-- `bufio.MaxScanTokenSize`. -/
def maxScanTokenSize : Nat := 65536

/-- The pieces between newlines; an unterminated last piece counts when it is not empty. -/
def rawLines (s : GoString) : List GoString :=
  let parts := split s newline
  if parts.getLast? = some [] then parts.dropLast else parts

/-- `bufio.ScanLines` drops one trailing carriage return. -/
def dropCR (line : GoString) : GoString :=
  if line.getLast? = some carriageReturn then line.dropLast else line

/-- Every line of the input. -/
def lines (s : GoString) : List GoString := (rawLines s).map dropCR

def Fits (line : GoString) : Prop := line.length < maxScanTokenSize

instance : DecidablePred Fits := fun line => inferInstanceAs (Decidable (line.length < _))

/-- The lines `for scanner.Scan()` sees. -/
def scannedLines (s : GoString) : List GoString :=
  ((rawLines s).takeWhile (fun line => decide (Fits line))).map dropCR

/-- Lines that are written one behind another are read back. -/
theorem rawLines_flatMap {ls : List GoString} (hls : ∀ l ∈ ls, newline ∉ l) :
    rawLines (ls.flatMap (· ++ [newline])) = ls := by
  have hsplit : split (ls.flatMap (· ++ [newline])) newline = ls ++ [[]] := by
    induction ls with
    | nil => rfl
    | cons l ls ih =>
      obtain ⟨hl, hls⟩ := List.forall_mem_cons.mp hls
      rw [List.flatMap_cons, List.append_assoc, List.singleton_append, split,
        List.splitOn_append_cons_self_of_not_mem hl]
      exact congrArg (l :: ·) (ih hls)
  rw [rawLines, hsplit, List.getLast?_concat, if_pos rfl, List.dropLast_concat]

theorem dropCR_isPrefix (line : GoString) : dropCR line <+: line := by
  unfold dropCR
  split
  · exact List.dropLast_prefix line
  · exact List.prefix_rfl

theorem scannedLines_flatMap {ls : List GoString} (hls : ∀ l ∈ ls, newline ∉ l)
    (hfits : ∀ l ∈ ls, Fits l) : scannedLines (ls.flatMap (· ++ [newline])) = ls.map dropCR := by
  rw [scannedLines, rawLines_flatMap hls,
    List.takeWhile_eq_self_iff.mpr fun l hl => decide_eq_true (hfits l hl)]

/-- The scan delivers a prefix of the lines. -/
theorem scannedLines_isPrefixOf_lines (s : GoString) : scannedLines s <+: lines s :=
  (List.takeWhile_prefix _).map dropCR

example : lines (str "a\r\n\nb") = [str "a", [], str "b"] := by decide

end Go
