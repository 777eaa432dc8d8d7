import YcAgent.Base.Scanner
import YcAgent.Base.Strconv

/-!
# The process that uses most

`GetTopCpu` and `GetTopMem` read a listing that is sorted by use and take the first `java`
process that is not the agent. Both results are named, and the scan overwrites them
before it decides to skip a line: at the end they are what the last skipped line left.
-/
namespace YcAgent.Capture

open Go

/-- Where a listing has its pid: `more` columns are not enough, and the pid is in column
`col`. -/
structure ListingFormat where
  more : Nat
  col : Nat
  col_le : col ≤ more

inductive TopError where
  | command (err : GoString)
  | number (err : NumError)
  deriving DecidableEq

/-- The loop over the columns of a line. -/
def collectColumns (more : Nat) (col : List GoString) : List GoString → List GoString
  | [] => col
  | column :: columns =>
    if 0 < column.length then
      let col := col ++ [column]
      if more < col.length then col else collectColumns more col columns
    else collectColumns more col columns

/-- The scan loop with the named results. -/
def topLoop (format : ListingFormat) (cpid : Int) (pid : Int) (err : Option NumError) :
    List GoString → Int × Option NumError
  | [] => (pid, err)
  | text :: texts =>
    let line := trimSpace text
    if 0 ≤ index line (str "java") then
      let col := collectColumns format.more [] (split line space)
      if format.more < col.length then
        let (pid, err) := atoiResult (trimSpace (col.getD format.col []))
        if err ≠ none then topLoop format cpid pid err texts
        else if pid = cpid then topLoop format cpid pid err texts
        else (pid, err)
      else topLoop format cpid pid err texts
    else topLoop format cpid pid err texts

/-- `output` is the listing, or the error of the command that prints it. -/
def getTop (format : ListingFormat) (cpid : Int) (output : Except GoString GoString) :
    Int × Option TopError :=
  match output with
  | .error err => (0, some (.command err))
  | .ok output =>
    let (pid, err) := topLoop format cpid 0 none (scannedLines output)
    (pid, err.map .number)

namespace ProcOthers

def topFormat : ListingFormat := ⟨0, 0, Nat.le_refl 0⟩

/-- `output` is what `ProcessTopCPU` printed. -/
def getTopCpu (cpid : Int) (output : Except GoString GoString) : Int × Option TopError :=
  getTop topFormat cpid output

/-- `output` is what `ProcessTopMEM` printed. -/
def getTopMem (cpid : Int) (output : Except GoString GoString) : Int × Option TopError :=
  getTop topFormat cpid output

end ProcOthers

namespace ProcWindows

def topFormat : ListingFormat := ⟨6, 5, by omega⟩

/-- `output` is what `ProcessTopCPU` printed. -/
def getTopCpu (cpid : Int) (output : Except GoString GoString) : Int × Option TopError :=
  getTop topFormat cpid output

/-- `output` is what `ProcessTopMEM` printed. -/
def getTopMem (cpid : Int) (output : Except GoString GoString) : Int × Option TopError :=
  getTop topFormat cpid output

end ProcWindows

/-! ## What a line says -/

/-- The non-empty columns of a line. -/
def columnsOf (text : GoString) : List GoString :=
  (split (trimSpace text) space).filter fun column => column ≠ []

/-- The pid column of a line with `java` and enough columns. -/
def pidColumn (format : ListingFormat) (text : GoString) : Option GoString :=
  if str "java" <:+: trimSpace text ∧ format.more < (columnsOf text).length then
    some (trimSpace ((columnsOf text).getD format.col []))
  else none

/-- The pid of a `java` line that is not the agent's. -/
def foreignPid (format : ListingFormat) (cpid : Int) (text : GoString) : Option Int :=
  ((pidColumn format text).bind atoi).filter fun pid => pid ≠ cpid

/-- The pid of the first such line. -/
def firstForeignPid (format : ListingFormat) (cpid : Int) (texts : List GoString) : Option Int :=
  texts.findSome? (foreignPid format cpid)

/-- The loop keeps the first columns that are not empty. -/
theorem collectColumns_eq {more : Nat} {columns col : List GoString} (hcol : col.length ≤ more) :
    collectColumns more col columns =
      (col ++ columns.filter fun column => column ≠ []).take (more + 1) := by
  induction columns generalizing col with
  | nil =>
    rw [collectColumns, List.filter_nil, List.append_nil, List.take_of_length_le (by omega)]
  | cons column columns ih =>
    by_cases hc : column = []
    · subst hc
      have hstep : collectColumns more col ([] :: columns) = collectColumns more col columns := by
        simp [collectColumns]
      rw [hstep, List.filter_cons_of_neg (by simp)]
      exact ih hcol
    · have hpos : 0 < column.length := List.length_pos_of_ne_nil hc
      have hlength : (col ++ [column]).length = col.length + 1 := List.length_append
      rw [List.filter_cons_of_pos (by simpa using hc), List.append_cons]
      simp only [collectColumns, if_pos hpos]
      by_cases hlen : more < (col ++ [column]).length
      · rw [if_pos hlen, List.take_append_of_le_length (by omega),
          List.take_of_length_le (by omega)]
      · rw [if_neg hlen]
        exact ih (by omega)

theorem collectColumns_columnsOf (format : ListingFormat) (text : GoString) :
    collectColumns format.more [] (split (trimSpace text) space) =
      (columnsOf text).take (format.more + 1) :=
  collectColumns_eq (Nat.zero_le _)

/-- What one line does to the named results. -/
theorem topLoop_cons (format : ListingFormat) (cpid pid : Int) (err : Option NumError)
    (text : GoString) (texts : List GoString) :
    topLoop format cpid pid err (text :: texts) =
      match pidColumn format text with
      | none => topLoop format cpid pid err texts
      | some id =>
        match foreignPid format cpid text with
        | some p => (p, none)
        | none => topLoop format cpid (atoiResult id).1 (atoiResult id).2 texts := by
  have hcol := format.col_le
  rw [topLoop]
  simp only [index_nonneg_iff, collectColumns_columnsOf, List.length_take]
  by_cases hjava : str "java" <:+: trimSpace text
  · by_cases hmore : format.more < (columnsOf text).length
    · have hget : ((columnsOf text).take (format.more + 1)).getD format.col [] =
          (columnsOf text).getD format.col [] := by
        rw [List.getD_eq_getElem?_getD, List.getD_eq_getElem?_getD,
          List.getElem?_take_of_lt (by omega)]
      have hid : pidColumn format text =
          some (trimSpace ((columnsOf text).getD format.col [])) := if_pos ⟨hjava, hmore⟩
      rw [if_pos hjava, if_pos (by omega), hget, hid]
      simp only [foreignPid, hid, Option.bind_some, atoi_eq_atoiResult]
      generalize atoiResult (trimSpace ((columnsOf text).getD format.col [])) = r
      obtain ⟨p, e⟩ := r
      cases e with
      | some e => simp
      | none =>
        by_cases hp : p = cpid
        · simp [hp, Option.filter]
        · simp [hp, Option.filter]
    · have hid : pidColumn format text = none := if_neg fun h => hmore h.2
      rw [if_pos hjava, if_neg (by omega), hid]
  · have hid : pidColumn format text = none := if_neg fun h => hjava h.1
    rw [if_neg hjava, hid]

/-- The named results at the end: those of the last line with a pid column. -/
def lastResult (format : ListingFormat) (texts : List GoString) : Int × Option NumError :=
  ((texts.filterMap (pidColumn format)).getLast?.map atoiResult).getD (0, none)

theorem foreignPid_eq_none {format : ListingFormat} {cpid : Int} {text : GoString}
    (h : pidColumn format text = none) : foreignPid format cpid text = none := by
  rw [foreignPid, h]
  rfl

/-- The loop returns the first foreign pid, and the last skipped result when there is none. -/
theorem topLoop_eq (format : ListingFormat) (cpid : Int) (texts : List GoString) :
    ∀ (pid : Int) (err : Option NumError), topLoop format cpid pid err texts =
      match firstForeignPid format cpid texts with
      | some p => (p, none)
      | none => ((texts.filterMap (pidColumn format)).getLast?.map atoiResult).getD (pid, err) := by
  induction texts with
  | nil =>
    intro pid err
    rfl
  | cons text texts ih =>
    intro pid err
    rw [topLoop_cons, firstForeignPid, List.findSome?_cons]
    cases hid : pidColumn format text with
    | none =>
      rw [foreignPid_eq_none hid, List.filterMap_cons_none hid]
      exact ih pid err
    | some id =>
      cases hforeign : foreignPid format cpid text with
      | some p => rfl
      | none =>
        simp only [ih, firstForeignPid, List.filterMap_cons_some hid]
        cases texts.findSome? (foreignPid format cpid) with
        | some p => rfl
        | none =>
          cases hrest : texts.filterMap (pidColumn format) with
          | nil => rfl
          | cons id' ids => rw [List.getLast?_cons_cons, List.getLast?_cons]; rfl

theorem getTop_ok (format : ListingFormat) (cpid : Int) (output : GoString) :
    getTop format cpid (.ok output) =
      match firstForeignPid format cpid (scannedLines output) with
      | some p => (p, none)
      | none => ((lastResult format (scannedLines output)).1,
          (lastResult format (scannedLines output)).2.map .number) := by
  rw [getTop, topLoop_eq]
  cases firstForeignPid format cpid (scannedLines output) with
  | some p => rfl
  | none => rfl

/-! ## When the selection is right -/

/-- The pid of an agent. -/
abbrev AgentPid := {cpid : Int // 0 < cpid}

/-- The first foreign pid of the whole listing, 0 when there is none, without an error. -/
def SelectsTop (format : ListingFormat) (cpid : AgentPid) (listing : GoString)
    (result : Int × Option TopError) : Prop :=
  result = ((firstForeignPid format cpid (lines listing)).getD 0, none)

/-- A line with a foreign pid is read, or no line with a pid column is read and the first
foreign pid, if there is one, is 0. -/
def TopReadable (format : ListingFormat) (cpid : AgentPid) (listing : GoString) : Prop :=
  (∃ text ∈ scannedLines listing, (foreignPid format cpid text).isSome) ∨
    (∀ text ∈ scannedLines listing, pidColumn format text = none) ∧
      ∀ pid ∈ firstForeignPid format cpid (lines listing), pid = 0

theorem foreignPid_ne {format : ListingFormat} {cpid p : Int} {text : GoString}
    (h : foreignPid format cpid text = some p) : p ≠ cpid := by
  rw [foreignPid, Option.filter_eq_some_iff] at h
  simpa using h.2

theorem firstForeignPid_ne {format : ListingFormat} {cpid p : Int} {texts : List GoString}
    (h : firstForeignPid format cpid texts = some p) : p ≠ cpid := by
  obtain ⟨text, -, htext⟩ := List.exists_of_findSome?_eq_some h
  exact foreignPid_ne htext

/-- Without a foreign pid the last line with a pid column leaves an error or the agent's own
pid. -/
theorem lastResult_own {format : ListingFormat} {cpid : Int} {texts : List GoString}
    (hnone : firstForeignPid format cpid texts = none)
    (hsome : ∃ text ∈ texts, pidColumn format text ≠ none)
    (herr : (lastResult format texts).2 = none) : (lastResult format texts).1 = cpid := by
  have hids : texts.filterMap (pidColumn format) ≠ [] := by
    obtain ⟨text, htext, hid⟩ := hsome
    obtain ⟨id, hid⟩ := Option.ne_none_iff_exists'.mp hid
    exact List.ne_nil_of_mem (List.mem_filterMap.mpr ⟨text, htext, hid⟩)
  have hlast := List.getLast?_eq_some_getLast hids
  obtain ⟨text, htext, hid⟩ := List.mem_filterMap.mp (List.getLast_mem hids)
  have hforeign : foreignPid format cpid text = none :=
    List.findSome?_eq_none_iff.mp hnone text htext
  rw [lastResult, hlast] at herr ⊢
  simp only [Option.map_some, Option.getD_some] at herr ⊢
  rw [foreignPid, hid, Option.bind_some, atoi_eq_atoiResult, if_pos herr] at hforeign
  simpa [Option.filter] using hforeign

theorem firstForeignPid_scanned {format : ListingFormat} {cpid p : Int} {listing : GoString}
    (h : firstForeignPid format cpid (scannedLines listing) = some p) :
    firstForeignPid format cpid (lines listing) = some p := by
  obtain ⟨rest, hrest⟩ := scannedLines_isPrefixOf_lines listing
  rw [firstForeignPid, ← hrest, List.findSome?_append]
  rw [firstForeignPid] at h
  rw [h]
  rfl

theorem getTop_selects_iff (format : ListingFormat) (cpid : AgentPid) (listing : GoString) :
    SelectsTop format cpid listing (getTop format cpid (.ok listing)) ↔
      TopReadable format cpid listing := by
  rw [SelectsTop, getTop_ok]
  cases hscan : firstForeignPid format cpid (scannedLines listing) with
  | some p =>
    rw [firstForeignPid_scanned hscan]
    obtain ⟨text, htext, hp⟩ := List.exists_of_findSome?_eq_some hscan
    constructor
    · intro _
      exact Or.inl ⟨text, htext, by rw [hp]; rfl⟩
    · intro _
      rfl
  | none =>
    have hno : ¬ ∃ text ∈ scannedLines listing, (foreignPid format cpid text).isSome := by
      intro ⟨text, htext, hp⟩
      rw [List.findSome?_eq_none_iff.mp hscan text htext] at hp
      cases hp
    rw [TopReadable, or_iff_right hno]
    by_cases hcol : ∃ text ∈ scannedLines listing, pidColumn format text ≠ none
    · constructor
      · intro hresult
        exfalso
        have herr := (Prod.mk.inj hresult).2
        have hpid := (Prod.mk.inj hresult).1
        rw [lastResult_own hscan hcol (by simpa using herr)] at hpid
        cases hall : firstForeignPid format cpid (lines listing) with
        | none =>
          rw [hall] at hpid
          have hpos := cpid.2
          simp only [Option.getD_none] at hpid
          omega
        | some p =>
          rw [hall] at hpid
          exact firstForeignPid_ne hall hpid.symm
      · intro hright
        obtain ⟨text, htext, hid⟩ := hcol
        exact absurd (hright.1 text htext) hid
    · push Not at hcol
      have hids : (scannedLines listing).filterMap (pidColumn format) = [] :=
        List.filterMap_eq_nil_iff.mpr hcol
      have hlast : lastResult format (scannedLines listing) = (0, none) := by
        rw [lastResult, hids]
        rfl
      rw [hlast, and_iff_right hcol]
      cases firstForeignPid format cpid (lines listing) with
      | none => simp
      | some p => simp [eq_comm]

/-- Each of the four functions selects right exactly on the listings it can read. -/
theorem top_selects_iff (cpid : AgentPid) (listing : GoString) :
    (SelectsTop ProcOthers.topFormat cpid listing (ProcOthers.getTopCpu cpid (.ok listing)) ↔
      TopReadable ProcOthers.topFormat cpid listing) ∧
    (SelectsTop ProcOthers.topFormat cpid listing (ProcOthers.getTopMem cpid (.ok listing)) ↔
      TopReadable ProcOthers.topFormat cpid listing) ∧
    (SelectsTop ProcWindows.topFormat cpid listing (ProcWindows.getTopCpu cpid (.ok listing)) ↔
      TopReadable ProcWindows.topFormat cpid listing) ∧
    (SelectsTop ProcWindows.topFormat cpid listing (ProcWindows.getTopMem cpid (.ok listing)) ↔
      TopReadable ProcWindows.topFormat cpid listing) :=
  ⟨getTop_selects_iff _ cpid listing, getTop_selects_iff _ cpid listing,
    getTop_selects_iff _ cpid listing, getTop_selects_iff _ cpid listing⟩

/-- The agent selects itself when its own line is the only one with `java`. -/
theorem agent_selects_itself :
    ¬ ∀ (cpid : AgentPid) (listing : GoString),
      SelectsTop ProcOthers.topFormat cpid listing (ProcOthers.getTopCpu cpid (.ok listing)) := by
  intro hall
  have hselects := hall ⟨42, by decide⟩ (str "42 root yc -j /usr/lib/jvm/java")
  revert hselects
  unfold SelectsTop
  decide

end YcAgent.Capture
