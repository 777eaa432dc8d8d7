import YcAgent.Base.Decimal
import YcAgent.Base.FilePath
import YcAgent.Base.Lines
import YcAgent.Capture.Post

/-!
# Whole copies of application logs

`AppLog` copies every file that matches one of its patterns, from the place where
`PositionLastLines` leaves it, and posts the copy. The place is searched backwards, byte
by byte, with a counter of 64 bits without a sign.

The line feed that ends a file is counted like any other, so a file that ends in one
loses a line; and a counter that starts at zero only stops the search where the last byte
is no line feed.
-/
namespace YcAgent.Capture

open Go Go.FilePath Text

/-- The loop of `PositionLastLines`; the cursor counts from the start of the file, where
the source counts from its end. -/
def positionLoop (content : GoString) (lines : UInt64) : Nat → Except GoString Nat
  | 0 => .error (str "invalid argument")
  | cursor + 1 =>
    match content[cursor]? with
    | none => .error (str "EOF")
    | some char =>
      let lines := if char = newline then lines - 1 else lines
      if lines = 0 then .ok (cursor + 1)
      else if cursor = 0 then .ok 0
      else positionLoop content lines cursor

/-- The offset at which `PositionLastLines` leaves a file that can be read. -/
def positionLastLines (content : GoString) (n : UInt64) : Except GoString Nat :=
  positionLoop content n content.length

/-- What `copyLogContent` writes to the destination. -/
def copyLogContent (lineLimit : Int) (src : GoString) (isCompressed : Bool) :
    Except GoString GoString :=
  if isCompressed = false ∧ lineLimit ≠ -1 then
    match positionLastLines src (UInt64.ofInt lineLimit) with
    | .error e => .error (str "position last lines: " ++ e)
    | .ok offset => .ok (src.drop offset)
  else .ok src

theorem positionLoop_succ {content : GoString} {cursor : Nat} (h : cursor < content.length)
    (lines : UInt64) :
    positionLoop content lines (cursor + 1) =
      let lines := if content[cursor] = newline then lines - 1 else lines
      if lines = 0 then .ok (cursor + 1)
      else if cursor = 0 then .ok 0
      else positionLoop content lines cursor := by
  rw [positionLoop, List.getElem?_eq_getElem h]

/-- Where the search may end: at the start of a text with fewer than `n` separators, or
behind the `n`-th separator from its end. -/
def IsPosition (content : GoString) (n offset : Nat) : Prop :=
  (offset = 0 ∧ content.count newline < n) ∨
    ∃ u, content = u ++ newline :: content.drop offset ∧
      (content.drop offset).count newline + 1 = n

theorem isPosition_zero {content : GoString} {n : Nat} (h : content.count newline < n) :
    IsPosition content n 0 :=
  Or.inl ⟨rfl, h⟩

theorem isPosition_behind {content : GoString} {cursor : Nat} (h : cursor < content.length)
    (hchar : content[cursor] = newline) :
    IsPosition content ((content.drop (cursor + 1)).count newline + 1) (cursor + 1) := by
  refine Or.inr ⟨content.take cursor, ?_, rfl⟩
  calc content = content.take cursor ++ content.drop cursor := (List.take_append_drop ..).symm
    _ = content.take cursor ++ newline :: content.drop (cursor + 1) := by
      rw [List.drop_eq_getElem_cons h, hchar]

theorem count_drop_getElem {content : GoString} {cursor : Nat} (h : cursor < content.length) :
    (content.drop cursor).count newline =
      (content.drop (cursor + 1)).count newline + if content[cursor] = newline then 1 else 0 := by
  rw [List.drop_eq_getElem_cons h, List.count_cons]
  simp only [beq_iff_eq]

/-- While the counter is what the separators behind the cursor leave of `n`, the search
ends at the right place. -/
theorem positionLoop_spec {content : GoString} {n : Nat} {lines : UInt64} {cursor : Nat}
    (hpos : 0 < cursor) (hle : cursor ≤ content.length) (hlines : lines ≠ 0)
    (hcount : lines.toNat + (content.drop cursor).count newline = n) :
    ∃ offset, positionLoop content lines cursor = .ok offset ∧ IsPosition content n offset := by
  induction cursor generalizing lines with
  | zero => exact absurd hpos (Nat.lt_irrefl 0)
  | succ cursor ih =>
    have hlt : cursor < content.length := hle
    have hcur := count_drop_getElem hlt
    have hlines0 : lines.toNat ≠ 0 := fun h => hlines (UInt64.toNat_inj.mp h)
    have hone : (1 : UInt64) ≤ lines := by
      rw [UInt64.le_iff_toNat_le]
      exact Nat.one_le_iff_ne_zero.mpr hlines0
    rw [positionLoop_succ hlt]
    by_cases hchar : content[cursor] = newline
    · simp only [if_pos hchar] at hcur ⊢
      have hsub : (lines - 1).toNat = lines.toNat - 1 := UInt64.toNat_sub_of_le _ _ hone
      by_cases hzero : lines - 1 = 0
      · rw [if_pos hzero]
        have hbehind := isPosition_behind hlt hchar
        rw [hzero, UInt64.toNat_zero] at hsub
        have hn : (content.drop (cursor + 1)).count newline + 1 = n := by omega
        exact ⟨_, rfl, hn ▸ hbehind⟩
      · rw [if_neg hzero]
        by_cases hstart : cursor = 0
        · subst hstart
          refine ⟨0, if_pos rfl, isPosition_zero ?_⟩
          have hne : (lines - 1).toNat ≠ 0 := fun h => hzero (UInt64.toNat_inj.mp h)
          rw [List.drop_zero] at hcur
          omega
        · rw [if_neg hstart]
          exact ih (Nat.pos_of_ne_zero hstart) (Nat.le_of_lt hlt) hzero (by omega)
    · simp only [if_neg hchar, if_neg hlines] at hcur ⊢
      by_cases hstart : cursor = 0
      · subst hstart
        refine ⟨0, if_pos rfl, isPosition_zero ?_⟩
        rw [List.drop_zero] at hcur
        omega
      · rw [if_neg hstart]
        exact ih (Nat.pos_of_ne_zero hstart) (Nat.le_of_lt hlt) hlines (by omega)

theorem positionLastLines_spec {content : GoString} (hcontent : content ≠ []) {n : UInt64}
    (hn : n ≠ 0) :
    ∃ offset, positionLastLines content n = .ok offset ∧ IsPosition content n.toNat offset := by
  refine positionLoop_spec (List.length_pos_iff.mpr hcontent) (Nat.le_refl _) hn ?_
  rw [List.drop_length, List.count_nil, Nat.add_zero]

/-- The lines behind a place where the search may end. -/
theorem drop_isPosition {content : GoString} {n offset : Nat}
    (h : IsPosition content (n + 1) offset) :
    content.drop offset =
      lastLines newline (if Unterminated newline content then n + 1 else n) content := by
  rcases h with ⟨rfl, hcount⟩ | ⟨u, hu, hcount⟩
  · rw [List.drop_zero, lastLines_eq_self]
    rw [length_lines]
    split <;> omega
  · generalize content.drop offset = t at hu hcount
    have hterm : Unterminated newline content ↔ Unterminated newline t := by
      rw [hu]
      cases t with
      | nil => simp [Unterminated]
      | cons b t => simp [Unterminated, List.getLast?_cons_cons]
    have hlen : (lines newline t).length =
        if Unterminated newline content then n + 1 else n := by
      rw [length_lines]
      simp only [hterm]
      split <;> omega
    rw [← hlen, hu, lastLines_append_nl]

/-- Nothing is left out exactly when there are not that many separators. -/
theorem drop_isPosition_eq_self_iff {content : GoString} {n offset : Nat}
    (h : IsPosition content n offset) :
    content.drop offset = content ↔ content.count newline < n := by
  rcases h with ⟨rfl, hcount⟩ | ⟨u, hu, hcount⟩
  · exact iff_of_true List.drop_zero hcount
  · have hlength := congrArg List.length hu
    rw [List.length_append, List.length_cons] at hlength
    have hall := congrArg (List.count newline) hu
    rw [List.count_append, List.count_cons_self] at hall
    refine iff_of_false (fun heq => ?_) (by omega)
    rw [heq] at hlength
    omega

theorem copyLogContent_nil {n : Int} (hn : n ≠ -1) :
    copyLogContent n [] false = .error (str "position last lines: " ++ str "invalid argument") :=
  if_pos ⟨rfl, hn⟩

theorem copyLogContent_of_position {n : Int} (hn : n ≠ -1) {src : GoString} {offset : Nat}
    (h : positionLastLines src (UInt64.ofInt n) = .ok offset) :
    copyLogContent n src false = .ok (src.drop offset) := by
  rw [copyLogContent, if_pos ⟨rfl, hn⟩, h]

theorem toNat_ofInt {n : Int} (hn : 1 ≤ n) (hint : InInt64 n) :
    (UInt64.ofInt n).toNat = n.toNat := by
  have hlt : n < 2 ^ 64 := by
    have h63 := hint.2
    omega
  have hmod : n % 2 ^ 64 = n := Int.emod_eq_of_lt (by omega) hlt
  rw [UInt64.ofInt, hmod, UInt64.toNat_ofNat_of_lt']
  change n.toNat < 2 ^ 64
  omega

/-- With a final line feed, the copy of a file has one line less than the limit. -/
theorem copyLogContent_limit {n : Int} (hn : 1 ≤ n) (hint : InInt64 n) {content : GoString}
    (hcontent : content ≠ []) :
    copyLogContent n content false = .ok (lastLines newline
      (if Unterminated newline content then n.toNat else n.toNat - 1) content) := by
  have hnat : (UInt64.ofInt n).toNat = n.toNat := toNat_ofInt hn hint
  have hne : UInt64.ofInt n ≠ 0 := by
    intro h
    rw [h, UInt64.toNat_zero] at hnat
    omega
  obtain ⟨offset, hoffset, hposition⟩ := positionLastLines_spec hcontent hne
  have hsucc : n.toNat = n.toNat - 1 + 1 := by omega
  rw [hnat, hsucc] at hposition
  rw [copyLogContent_of_position (by omega) hoffset, drop_isPosition hposition, ← hsucc]

/-- The copy is exactly the last `n` lines of the file, all of them where there are no more,
unless the file is empty, or ends in a line feed and has as many lines as the limit. -/
theorem copyLogContent_eq_lastLines_iff {n : Int} (hn : 1 ≤ n) (hint : InInt64 n)
    (content : GoString) :
    copyLogContent n content false = .ok (lastLines newline n.toNat content) ↔
      content ≠ [] ∧
        (Unterminated newline content ∨ (lines newline content).length < n.toNat) := by
  by_cases hcontent : content = []
  · subst hcontent
    rw [copyLogContent_nil (by omega)]
    simp
  · have hsucc : n.toNat = n.toNat - 1 + 1 := by omega
    rw [copyLogContent_limit hn hint hcontent]
    by_cases hterm : Unterminated newline content
    · simp [hterm, hcontent]
    · have hless := @lastLines_succ_eq_iff _ _ newline (n.toNat - 1) content
      rw [← hsucc] at hless
      simp only [hterm, if_false, hcontent, ne_eq, not_false_eq_true, true_and, false_or,
        Except.ok.injEq, hless]
      omega

theorem copyLogContent_two_lines :
    copyLogContent 2 (str "line1\nline2") false =
      .ok (lastLines newline 2 (str "line1\nline2")) :=
  (copyLogContent_eq_lastLines_iff (by decide) (by decide) _).mpr
    ⟨by decide, Or.inl (by decide)⟩

/-- One line with its line feed, and a limit of one line: nothing is copied. -/
theorem copyLogContent_not_exact :
    ¬ ∀ (n : Int) (content : GoString), 1 ≤ n → InInt64 n →
      copyLogContent n content false = .ok (lastLines newline n.toNat content) := by
  intro h
  have hone := h 1 (str "line1\n") (by decide) (by decide)
  have hnone : copyLogContent 1 (str "line1\n") false = .ok [] := by rfl
  rw [hnone] at hone
  exact absurd (Except.ok.inj hone) (by decide)

/-- The search ends somewhere in front of the cursor, whatever the counter. -/
theorem positionLoop_ok {content : GoString} (lines : UInt64) {cursor : Nat} (hpos : 0 < cursor)
    (hle : cursor ≤ content.length) :
    ∃ offset, positionLoop content lines cursor = .ok offset ∧ offset ≤ cursor := by
  induction cursor generalizing lines with
  | zero => exact absurd hpos (Nat.lt_irrefl 0)
  | succ cursor ih =>
    rw [positionLoop_succ hle]
    simp only
    generalize (if content[cursor] = newline then lines - 1 else lines) = lines'
    by_cases hzero : lines' = 0
    · exact ⟨_, if_pos hzero, Nat.le_refl _⟩
    · rw [if_neg hzero]
      by_cases hstart : cursor = 0
      · exact ⟨_, if_pos hstart, Nat.zero_le _⟩
      · rw [if_neg hstart]
        obtain ⟨offset, hoffset, hoffset'⟩ :=
          ih lines' (Nat.pos_of_ne_zero hstart) (Nat.le_of_lt hle)
        exact ⟨offset, hoffset, Nat.le_succ_of_le hoffset'⟩

theorem positionLastLines_concat (front : GoString) (b : Byte) (n : UInt64) :
    positionLastLines (front ++ [b]) n =
      let lines := if b = newline then n - 1 else n
      if lines = 0 then .ok (front.length + 1)
      else if front.length = 0 then .ok 0
      else positionLoop (front ++ [b]) lines front.length := by
  have hlt : front.length < (front ++ [b]).length := by simp
  have hloop := positionLoop_succ hlt n
  rw [List.getElem_concat_length rfl] at hloop
  rw [positionLastLines, List.length_append]
  exact hloop

theorem copyLogContent_zero_of_ne {front : GoString} {b : Byte} (hb : b ≠ newline) :
    copyLogContent 0 (front ++ [b]) false = .ok [] := by
  have hposition : positionLastLines (front ++ [b]) (UInt64.ofInt 0) = .ok (front.length + 1) := by
    rw [positionLastLines_concat, if_neg hb]
    rfl
  rw [copyLogContent_of_position (by decide) hposition]
  simp

/-- A final line feed takes the counter from zero to its largest value. -/
theorem copyLogContent_zero_of_newline (front : GoString) :
    ∃ dst, copyLogContent 0 (front ++ [newline]) false = .ok dst ∧ dst ≠ [] := by
  obtain ⟨offset, hoffset, hle⟩ : ∃ offset,
      positionLastLines (front ++ [newline]) (UInt64.ofInt 0) = .ok offset ∧
        offset ≤ front.length := by
    have hne : UInt64.ofInt 0 - 1 ≠ 0 := by decide
    rw [positionLastLines_concat, if_pos rfl]
    simp only [if_neg hne]
    by_cases hstart : front.length = 0
    · exact ⟨0, if_pos hstart, Nat.zero_le _⟩
    · rw [if_neg hstart]
      exact positionLoop_ok _ (Nat.pos_of_ne_zero hstart) (by simp)
  refine ⟨_, copyLogContent_of_position (by decide) hoffset, fun hnil => ?_⟩
  rw [List.drop_eq_nil_iff, List.length_append, List.length_singleton] at hnil
  omega

/-- With a limit of zero, something is copied exactly where a line feed ends the file. -/
theorem copyLogContent_zero (src : GoString) :
    (∃ dst, copyLogContent 0 src false = .ok dst ∧ dst ≠ []) ↔
      src.getLast? = some newline := by
  rcases List.eq_nil_or_concat' src with rfl | ⟨front, b, rfl⟩
  · rw [copyLogContent_nil (by decide)]
    simp
  · rw [List.getLast?_concat, Option.some.injEq]
    by_cases hb : b = newline
    · subst hb
      exact iff_of_true (copyLogContent_zero_of_newline front) rfl
    · refine iff_of_false ?_ hb
      intro ⟨dst, hdst, hne⟩
      rw [copyLogContent_zero_of_ne hb] at hdst
      exact hne (Except.ok.inj hdst).symm

/-- What a task of the capture returns. -/
structure Result where
  msg : GoString
  ok : Bool

structure AppLog where
  paths : List GoString
  lineLimit : Int
  endpoint : GoString

namespace AppLog

def compressedFileExtensions : List GoString := [str "zip", str "gz"]

def isCompressedFileExt (s : GoString) : Bool := compressedFileExtensions.any (· == s)

/-- The extension of a path without its dot. -/
def fileExt (filePath : GoString) : GoString := trimPrefix (ext filePath) [dot]

/-- The file is copied as a whole. -/
def IsCompressed (filePath : GoString) : Prop := isCompressedFileExt (fileExt filePath) = true

instance (filePath : GoString) : Decidable (IsCompressed filePath) :=
  inferInstanceAs (Decidable (_ = true))

def buildPostData (fileName ext : GoString) (isCompressed : Bool) : GoString :=
  let dt := str "applog&logName=" ++ fileName
  if isCompressed then dt ++ str "&content-encoding=" ++ ext else dt

def uniqueLogPath (counter : Nat) (baseFileName : GoString) : GoString :=
  decimal counter ++ (str ".appLogs." ++ baseFileName)

/-- The first path in the order of the counter that none of the files `names` has. -/
def generateUniqueLogPath (names : List GoString) (baseFileName : GoString) : GoString :=
  let free := (List.range names.length).findIdx fun i =>
    !names.contains (uniqueLogPath (i + 1) baseFileName)
  uniqueLogPath (free + 1) baseFileName

theorem uniqueLogPath_injective (baseFileName : GoString) :
    Function.Injective fun counter => uniqueLogPath counter baseFileName :=
  fun _ _ h => decimal_injective (List.append_cancel_right h)

/-- Among one name more than there are, one is free. -/
theorem exists_le_not_mem {path : Nat → GoString} (hinj : Function.Injective path)
    (names : List GoString) : ∃ i ≤ names.length, path i ∉ names := by
  by_contra hnone
  have hsub : (List.range (names.length + 1)).map path ⊆ names := by
    intro g hg
    obtain ⟨i, hi, rfl⟩ := List.mem_map.mp hg
    by_contra hfree
    exact hnone ⟨i, Nat.le_of_lt_succ (List.mem_range.mp hi), hfree⟩
  have hnodup : ((List.range (names.length + 1)).map path).Nodup := List.nodup_range.map hinj
  have hcard := (hnodup.subperm hsub).length_le
  rw [List.length_map, List.length_range] at hcard
  omega

/-- A copy never writes over a file that is there. -/
theorem generateUniqueLogPath_not_mem (names : List GoString) (baseFileName : GoString) :
    generateUniqueLogPath names baseFileName ∉ names := by
  let path := fun i : Nat => uniqueLogPath (i + 1) baseFileName
  have hinj : Function.Injective path := fun i j h =>
    Nat.succ.inj (uniqueLogPath_injective baseFileName h)
  have hpath : ∀ i, (!names.contains (path i)) = true ↔ path i ∉ names := by
    intro i
    rw [Bool.not_eq_true', ← Bool.not_eq_true, List.contains_iff_mem]
  let free := (List.range names.length).findIdx fun i => !names.contains (path i)
  show path free ∉ names
  by_cases hfree : free < (List.range names.length).length
  · have hat := List.findIdx_getElem (p := fun i => !names.contains (path i)) (w := hfree)
    rw [List.getElem_range] at hat
    exact (hpath _).mp hat
  · -- none of the counters that were tried is free, so the next one is
    obtain ⟨i, hi, hno⟩ := exists_le_not_mem hinj names
    have hle : free ≤ (List.range names.length).length := List.findIdx_le_length
    have hnot : ¬ i < names.length := fun hlt =>
      hfree (List.findIdx_lt_length_of_exists ⟨i, List.mem_range.mpr hlt, (hpath i).mpr hno⟩)
    rw [List.length_range] at hle hfree
    have heq : free = i := by omega
    rw [heq]
    exact hno

/-- How the outside steps of the capture of a file end; `names` are the files of the
working directory. -/
structure FileWorld where
  opens : Except GoString GoString
  names : List GoString
  create : Option GoString
  sync : Option GoString
  post : PostWorld

/-- A destination file. -/
structure Copy where
  filePath : GoString
  dstPath : GoString
  content : GoString

/-- What the capture of a file returns, the copy it made and what it sent. -/
structure Captured where
  result : Result
  err : Option GoString
  copy : Option Copy
  sent : Option (GoString × GoString)

def Captured.failed (err : GoString) (copy : Option Copy) : Captured :=
  ⟨⟨[], false⟩, some err, copy, none⟩

section Run

-- `quote` is the verb `%q` of `fmt`.
variable (o : Options) (quote : GoString → GoString) (al : AppLog)

def captureSingleAppLog (filePath : GoString) (w : FileWorld) : Captured :=
  match w.opens with
  | .error e => .failed (str "failed to open applog " ++ quote filePath ++ str ": " ++ e) none
  | .ok src =>
    let fileBaseName := base filePath
    let isCompressed := isCompressedFileExt (fileExt filePath)
    let dstPath := generateUniqueLogPath w.names fileBaseName
    match w.create with
    | some e =>
      .failed (str "applog failed to create destination file " ++ quote dstPath ++ str ": " ++ e)
        none
    | none =>
      match copyLogContent al.lineLimit src isCompressed with
      | .error e =>
        .failed (str "applog failed to copy log content: " ++ e) (some ⟨filePath, dstPath, []⟩)
      | .ok dst =>
        let copy : Copy := ⟨filePath, dstPath, dst⟩
        match w.sync with
        | some e => .failed (str "applog failed to sync destination file: " ++ e) (some copy)
        | none =>
          let data := buildPostData fileBaseName (fileExt filePath) isCompressed
          let posted := postData o w.post al.endpoint data (some ⟨dstPath, dst⟩)
          ⟨⟨posted.msg, posted.ok⟩, none, some copy, posted.sent⟩

/-- What `Run` does with one match of a pattern, or with a pattern that is malformed. -/
inductive Job where
  | invalidGlob (pattern err : GoString)
  | file (filePath : GoString)
  deriving DecidableEq

/-- The jobs of the loops of `Run`; `glob` is `zglob.Glob`. -/
def jobs (glob : GoString → Except GoString (List GoString)) : List Job :=
  al.paths.flatMap fun path =>
    match glob path with
    | .error e => [.invalidGlob path e]
    | .ok ms => ms.map .file

def runJob (w : FileWorld) : Job → Captured
  | .invalidGlob path e => ⟨⟨str "invalid glob pattern: " ++ path, false⟩, some e, none, none⟩
  | .file filePath => captureSingleAppLog o quote al filePath w

/-- What the loops of `Run` collect; the `k`-th job runs in the `k`-th world. -/
def captures (glob : GoString → Except GoString (List GoString)) (worlds : Nat → FileWorld) :
    List Captured :=
  (al.jobs glob).zipIdx.map fun job => runJob o quote al (worlds job.2) job.1

/-- The part of the summary that one result gives. -/
def summary (r : Result) (err : Option GoString) : GoString :=
  let msg := str "Msg: " ++ r.msg ++ str "\nOk: " ++ formatBool r.ok
  let msg := match err with
    | none => msg
    | some e => msg ++ str "\nErr: " ++ e
  msg ++ str "\n----\n"

def summarizeResults (results : List (Result × Option GoString)) : Result × Option GoString :=
  let msg := results.flatMap fun r => summary r.1 r.2
  let hasSuccess := results.any fun r => r.1.ok
  let lastErr := (results.filterMap Prod.snd).getLast?
  if hasSuccess = false ∧ lastErr.isSome then (⟨msg, false⟩, lastErr)
  else (⟨msg, hasSuccess⟩, none)

def run (glob : GoString → Except GoString (List GoString)) (worlds : Nat → FileWorld) :
    Result × Option GoString :=
  summarizeResults ((al.captures o quote glob worlds).map fun c => (c.result, c.err))

theorem mem_captures_iff {glob : GoString → Except GoString (List GoString)}
    {worlds : Nat → FileWorld} {c : Captured} :
    c ∈ al.captures o quote glob worlds ↔
      ∃ k job, (al.jobs glob)[k]? = some job ∧ runJob o quote al (worlds k) job = c := by
  rw [captures, List.mem_map]
  constructor
  · intro h
    obtain ⟨⟨job, k⟩, hjob, hc⟩ := h
    exact ⟨k, job, List.mk_mem_zipIdx_iff_getElem?.mp hjob, hc⟩
  · intro h
    obtain ⟨k, job, hjob, hc⟩ := h
    exact ⟨(job, k), List.mk_mem_zipIdx_iff_getElem?.mpr hjob, hc⟩

end Run

/-- No byte of an uncompressed log is copied or sent. -/
def Captured.Skipped (c : Captured) : Prop :=
  ∀ copy, c.copy = some copy → ¬ IsCompressed copy.filePath →
    copy.content = [] ∧ ∀ sent, c.sent = some sent → sent.2 = []

theorem Captured.skipped_of_copy {c : Captured} (h : c.copy = none) : c.Skipped := by
  intro copy hcopy
  rw [h] at hcopy
  cases hcopy

/-- What the destination file holds in the end. -/
def written (al : AppLog) (filePath src : GoString) : GoString :=
  (copyLogContent al.lineLimit src (isCompressedFileExt (fileExt filePath))).toOption.getD []

section Spec

variable {o : Options} {quote : GoString → GoString} {al : AppLog} {filePath : GoString}
  {w : FileWorld}

theorem copy_captureSingleAppLog {src : GoString} (hopens : w.opens = .ok src)
    (hcreate : w.create = none) :
    (captureSingleAppLog o quote al filePath w).copy =
      some ⟨filePath, generateUniqueLogPath w.names (base filePath), written al filePath src⟩ := by
  simp only [captureSingleAppLog, written, hopens, hcreate]
  cases copyLogContent al.lineLimit src (isCompressedFileExt (fileExt filePath)) with
  | error e => rfl
  | ok dst => cases w.sync <;> rfl

theorem copy_eq_none (h : ∀ src, w.opens = .ok src → w.create ≠ none) :
    (captureSingleAppLog o quote al filePath w).copy = none := by
  cases hopens : w.opens with
  | error e => simp only [captureSingleAppLog, hopens, Captured.failed]
  | ok src =>
    cases hcreate : w.create with
    | some e => simp only [captureSingleAppLog, hopens, hcreate, Captured.failed]
    | none => exact absurd hcreate (h src hopens)

/-- An empty copy is not sent. -/
theorem sent_eq_none {src : GoString} (hopens : w.opens = .ok src) (hcreate : w.create = none)
    (hempty : written al filePath src = []) :
    (captureSingleAppLog o quote al filePath w).sent = none := by
  unfold written at hempty
  simp only [captureSingleAppLog, hopens, hcreate]
  cases hdst : copyLogContent al.lineLimit src (isCompressedFileExt (fileExt filePath)) with
  | error e => rfl
  | ok dst =>
    rw [hdst] at hempty
    obtain rfl : dst = [] := hempty
    cases hsync : w.sync with
    | some e => rfl
    | none => exact postData_empty ..

theorem skipped_captureSingleAppLog :
    (captureSingleAppLog o quote al filePath w).Skipped ↔
      (¬ IsCompressed filePath → ∀ src, w.opens = .ok src → w.create = none →
        written al filePath src = []) := by
  constructor
  · intro h hext src hopens hcreate
    exact (h _ (copy_captureSingleAppLog hopens hcreate) hext).1
  · intro h copy hcopy hext
    by_cases hmade : ∀ src, w.opens = .ok src → w.create ≠ none
    · rw [copy_eq_none hmade] at hcopy
      cases hcopy
    · obtain ⟨src, hsrc⟩ := not_forall.mp hmade
      obtain ⟨hopens, hcreate⟩ := Classical.not_imp.mp hsrc
      rw [copy_captureSingleAppLog hopens (not_not.mp hcreate)] at hcopy
      cases hcopy
      have hempty := h hext src hopens (not_not.mp hcreate)
      rw [sent_eq_none hopens (not_not.mp hcreate) hempty]
      exact ⟨hempty, fun sent hsent => by cases hsent⟩

/-- With a limit of zero, what is skipped is told by the last byte. -/
theorem skipped_zero (hlimit : al.lineLimit = 0) :
    (captureSingleAppLog o quote al filePath w).Skipped ↔
      (¬ IsCompressed filePath → ∀ src, w.opens = .ok src → w.create = none →
        src.getLast? ≠ some newline) := by
  rw [skipped_captureSingleAppLog]
  refine forall_congr' fun hext => forall_congr' fun src => forall_congr' fun _ =>
    forall_congr' fun _ => ?_
  have hplain : isCompressedFileExt (fileExt filePath) = false := Bool.eq_false_iff.mpr hext
  rw [written, hplain, hlimit, ne_eq, ← copyLogContent_zero]
  cases copyLogContent 0 src false with
  | error e => exact iff_of_true rfl (fun h => by obtain ⟨dst, hdst, -⟩ := h; cases hdst)
  | ok dst => simp [Except.toOption]

end Spec

end AppLog

end YcAgent.Capture
