import YcAgent.Base.Scanner
import YcAgent.Base.FirstWins
import YcAgent.Capture.ProcessTokens

/-!
# Process selection on Unix

`GetProcessIds` reads the output of `ps` line by line. `continue Next` leaves
the line from inside the token loop and the column loop, so only the first token
that occurs in a line is ever heard for it.
-/
namespace YcAgent.Capture.ProcOthers

open Go

/-- What the column loop does once the second column `id` is known. -/
def recordPid (cpid : Int) (token appName : GoString) (pids : GoMap Int GoString)
    (id : GoString) : GoMap Int GoString :=
  match atoi (trimSpace id) with
  | none => pids
  | some pid =>
    if pid = cpid then pids
    else match atoi token with
      | some tokenPid => if tokenPid ≠ pid then pids else setIfAbsent pids pid appName
      | none => setIfAbsent pids pid appName

/-- The loop over the columns of a line; `none` falls through to the next token. -/
def columnLoop (cpid : Int) (token appName : GoString) (pids : GoMap Int GoString)
    (col : List GoString) : List GoString → Option (GoMap Int GoString)
  | [] => none
  | column :: columns =>
    if column.length ≤ 0 then columnLoop cpid token appName pids col columns
    else
      let col := col ++ [column]
      if col.length ≤ 1 then columnLoop cpid token appName pids col columns
      else some (recordPid cpid token appName pids (col.getD 1 []))

/-- The loop over the tokens of one line. -/
def tokenLoop (cpid : Int) (line : GoString) (pids : GoMap Int GoString) :
    ProcessTokens → GoMap Int GoString
  | [] => pids
  | t :: tokens =>
    let (token, appName) := cutAppName t
    if 0 ≤ index line token then
      match columnLoop cpid token appName pids [] (split line space) with
      | some pids => pids
      | none => tokenLoop cpid line pids tokens
    else tokenLoop cpid line pids tokens

/-- One round of the scan loop. -/
def scanLine (cpid : Int) (tokens excludes : ProcessTokens) (pids : GoMap Int GoString)
    (text : GoString) : GoMap Int GoString :=
  let line := trimSpace text
  if excludes.any (fun exclude => 0 ≤ index line exclude) then pids
  else tokenLoop cpid line pids tokens

/-- `GetProcessIds`; `output` is what `ps` printed or the error of running it. -/
def getProcessIds (cpid : Int) (output : Except GoString GoString)
    (tokens excludes : ProcessTokens) : Except GoString (GoMap Int GoString) :=
  match output with
  | .error err => .error err
  | .ok output => .ok ((scannedLines output).foldl (scanLine cpid tokens excludes) ∅)

/-! ## What a line contributes -/

def secondColumn (line : GoString) : Option GoString :=
  ((split line space).filter (fun column => column ≠ []))[1]?

/-- The process a line is about. -/
def pidOf (line : GoString) : Option Int := (secondColumn line).bind fun id => atoi (trimSpace id)

def Occurs (line : GoString) (t : ProcessToken) : Prop := tokenText t <:+: line

instance (line : GoString) : DecidablePred (Occurs line) :=
  fun t => inferInstanceAs (Decidable (tokenText t <:+: line))

/-- An integer other than `p`. -/
def Foreign (p : Int) (t : ProcessToken) : Prop := ∃ n ∈ atoi (tokenText t), n ≠ p

instance (p : Int) : DecidablePred (Foreign p) :=
  fun t => inferInstanceAs (Decidable (∃ n ∈ atoi (tokenText t), n ≠ p))

/-- The line is about `p` and holds no exclude string. -/
def Eligible (excludes : ProcessTokens) (p : Int) (line : GoString) : Prop :=
  pidOf line = some p ∧ ∀ exclude ∈ excludes, ¬ exclude <:+: line

instance (excludes : ProcessTokens) (p : Int) : DecidablePred (Eligible excludes p) :=
  fun _ => inferInstanceAs (Decidable (_ ∧ _))

/-- The first token that occurs in the line. -/
def heardToken (tokens : ProcessTokens) (line : GoString) : Option ProcessToken :=
  tokens.find? (fun t => decide (Occurs line t))

/-- The line counts for `p`: its first occurring token does not belong to another pid. -/
def Heard (tokens excludes : ProcessTokens) (p : Int) (line : GoString) : Prop :=
  Eligible excludes p line ∧ ∃ t ∈ heardToken tokens line, ¬ Foreign p t

instance (tokens excludes : ProcessTokens) (p : Int) : DecidablePred (Heard tokens excludes p) :=
  fun _ => inferInstanceAs (Decidable (_ ∧ _))

/-- The entry a trimmed line adds when its pid is not there yet. -/
def lineEntry (cpid : Int) (tokens excludes : ProcessTokens) (line : GoString) :
    Option (Int × GoString) :=
  (pidOf line).bind fun p =>
    if p ≠ cpid ∧ Heard tokens excludes p line then
      (heardToken tokens line).map fun t => (p, tokenAppName t)
    else none

theorem columnLoop_eq (cpid : Int) (token appName : GoString) (pids : GoMap Int GoString)
    (columns : List GoString) :
    ∀ col : List GoString, col.length ≤ 1 →
      columnLoop cpid token appName pids col columns =
        ((col ++ columns.filter (fun column => column ≠ []))[1]?).map
          (recordPid cpid token appName pids) := by
  induction columns with
  | nil =>
    intro col hcol
    rw [columnLoop, List.filter_nil, List.append_nil, List.getElem?_eq_none (by omega)]
    rfl
  | cons column columns ih =>
    intro col hcol
    by_cases hc : column = []
    · subst hc
      have hstep : columnLoop cpid token appName pids col ([] :: columns) =
          columnLoop cpid token appName pids col columns := by simp [columnLoop]
      rw [hstep, ih col hcol]
      simp
    · have hpos : ¬ column.length ≤ 0 := by
        have := List.length_pos_of_ne_nil hc
        omega
      simp only [columnLoop, if_neg hpos, List.length_append, List.length_singleton]
      rw [List.filter_cons_of_pos (by simpa using hc),
        List.append_cons col column (columns.filter fun column => column ≠ [])]
      by_cases hlen : col.length + 1 ≤ 1
      · rw [if_pos hlen]
        exact ih (col ++ [column]) (by rw [List.length_append, List.length_singleton]; exact hlen)
      · have hone : 1 < (col ++ [column]).length := by simp; omega
        rw [if_neg hlen, List.getElem?_append_left hone, List.getD_eq_getElem?_getD,
          List.getElem?_eq_getElem hone]
        rfl

theorem tokenLoop_cons (cpid : Int) (line : GoString) (pids : GoMap Int GoString)
    (t : ProcessToken) (tokens : ProcessTokens) :
    tokenLoop cpid line pids (t :: tokens) =
      if Occurs line t then
        (columnLoop cpid (tokenText t) (tokenAppName t) pids [] (split line space)).getD
          (tokenLoop cpid line pids tokens)
      else tokenLoop cpid line pids tokens := by
  have hi : 0 ≤ index line (cutAppName t).1 ↔ Occurs line t := index_nonneg_iff _ _
  simp only [tokenLoop, hi, tokenText, tokenAppName]
  split
  · split <;> simp_all
  · rfl

/-- The token loop hears one token: the first that occurs in the line. -/
theorem tokenLoop_eq (cpid : Int) (line : GoString) (pids : GoMap Int GoString)
    (tokens : ProcessTokens) :
    tokenLoop cpid line pids tokens =
      ((heardToken tokens line).bind fun t => (secondColumn line).map
        (recordPid cpid (tokenText t) (tokenAppName t) pids)).getD pids := by
  induction tokens with
  | nil => rfl
  | cons t tokens ih =>
    rw [tokenLoop_cons]
    by_cases ho : Occurs line t
    · have hh : heardToken (t :: tokens) line = some t := by simp [heardToken, ho]
      have hcol := columnLoop_eq cpid (tokenText t) (tokenAppName t) pids (split line space) []
        (by simp)
      rw [if_pos ho, hh, hcol, List.nil_append, ih]
      show ((secondColumn line).map _).getD _ = _
      cases hs : secondColumn line <;> simp
    · have hh : heardToken (t :: tokens) line = heardToken tokens line := by
        simp [heardToken, ho]
      rw [if_neg ho, hh, ih]

theorem heard_iff {tokens excludes : ProcessTokens} {p : Int} {line : GoString} {t : ProcessToken}
    (ht : heardToken tokens line = some t) :
    Heard tokens excludes p line ↔ Eligible excludes p line ∧ ¬ Foreign p t := by
  simp [Heard, ht]

theorem foreign_iff (p : Int) (t : ProcessToken) :
    Foreign p t ↔ ∃ n, atoi (tokenText t) = some n ∧ n ≠ p := by
  simp [Foreign]

theorem recordPid_eq {cpid p : Int} (t : ProcessToken) (pids : GoMap Int GoString)
    {id : GoString} (hp : atoi (trimSpace id) = some p) :
    recordPid cpid (tokenText t) (tokenAppName t) pids id =
      if p ≠ cpid ∧ ¬ Foreign p t then setIfAbsent pids p (tokenAppName t) else pids := by
  unfold recordPid
  rw [hp]
  by_cases hc : p = cpid
  · simp [hc]
  · cases hn : atoi (tokenText t) with
    | none => simp [hc, foreign_iff, hn]
    | some n =>
      by_cases hnp : n = p
      · simp [hc, foreign_iff, hn, hnp]
      · simp [hc, foreign_iff, hn, hnp]

def addEntry (pids : GoMap Int GoString) (entry : Option (Int × GoString)) : GoMap Int GoString :=
  entry.elim pids fun kv => setIfAbsent pids kv.1 kv.2

/-- One round of the scan loop adds the entry of its line. -/
theorem scanLine_eq (cpid : Int) (tokens excludes : ProcessTokens) (pids : GoMap Int GoString)
    (text : GoString) :
    scanLine cpid tokens excludes pids text =
      addEntry pids (lineEntry cpid tokens excludes (trimSpace text)) := by
  generalize hl : trimSpace text = line
  simp only [scanLine, hl]
  by_cases hx : ∃ exclude ∈ excludes, exclude <:+: line
  · have hany : excludes.any (fun exclude => 0 ≤ index line exclude) = true := by
      simpa [index_nonneg_iff] using hx
    have hnot : ∀ p, ¬ Heard tokens excludes p line := by
      rintro p ⟨⟨-, hno⟩, -⟩
      obtain ⟨exclude, hmem, hin⟩ := hx
      exact hno exclude hmem hin
    rw [if_pos hany]
    cases hp : pidOf line <;> simp [lineEntry, addEntry, hp, hnot]
  · have hany : ¬ excludes.any (fun exclude => 0 ≤ index line exclude) = true := by
      simpa [index_nonneg_iff] using hx
    rw [if_neg hany, tokenLoop_eq]
    have hno : ∀ exclude ∈ excludes, ¬ exclude <:+: line := by simpa using hx
    cases ht : heardToken tokens line with
    | none => cases hp : pidOf line <;> simp [lineEntry, addEntry, hp, ht, Heard]
    | some t =>
      cases hs : secondColumn line with
      | none => simp [lineEntry, addEntry, pidOf, hs]
      | some id =>
        cases hp : atoi (trimSpace id) with
        | none => simp [lineEntry, addEntry, pidOf, hs, hp, recordPid]
        | some p =>
          have hpid : pidOf line = some p := by simp [pidOf, hs, hp]
          have hheard : Heard tokens excludes p line ↔ ¬ Foreign p t := by
            rw [heard_iff ht]
            exact ⟨fun h => h.2, fun h => ⟨⟨hpid, hno⟩, h⟩⟩
          simp only [Option.bind_some, Option.map_some, Option.getD_some, recordPid_eq t pids hp,
            lineEntry, hpid, hheard, ht]
          split <;> simp [addEntry]

/-- The trimmed lines the scan reaches. -/
def scanned (output : GoString) : List GoString := (scannedLines output).map trimSpace

theorem foldl_scanLine (cpid : Int) (tokens excludes : ProcessTokens) (texts : List GoString)
    (pids : GoMap Int GoString) :
    texts.foldl (scanLine cpid tokens excludes) pids =
      firstWins pids ((texts.map trimSpace).filterMap (lineEntry cpid tokens excludes)) := by
  induction texts generalizing pids with
  | nil => rfl
  | cons text texts ih =>
    rw [List.foldl_cons, ih, scanLine_eq, List.map_cons]
    cases he : lineEntry cpid tokens excludes (trimSpace text) with
    | none => simp [addEntry, he]
    | some kv => simp [addEntry, he, firstWins]

/-- The name the code records for a process: that of the first line heard for it. -/
def heardName (cpid : Int) (tokens excludes : ProcessTokens) (output : GoString) (p : Int) :
    Option GoString :=
  if p = cpid then none
  else ((scanned output).find? (fun line => decide (Heard tokens excludes p line))).bind
    fun line => (heardToken tokens line).map tokenAppName

theorem lookup_getProcessIds {cpid : Int} {tokens excludes : ProcessTokens} {output : GoString}
    {pids : GoMap Int GoString}
    (h : getProcessIds cpid (.ok output) tokens excludes = .ok pids) (p : Int) :
    pids.lookup p = heardName cpid tokens excludes output p := by
  have hp : pids = firstWins ∅ ((scanned output).filterMap (lineEntry cpid tokens excludes)) := by
    rw [scanned, ← foldl_scanLine]
    exact (Except.ok.inj h).symm
  rw [hp, lookup_firstWins_empty, firstValue, List.find?_filterMap]
  unfold heardName
  have hentry : ∀ line, (lineEntry cpid tokens excludes line).any (fun kv => decide (kv.1 = p)) =
      decide (p ≠ cpid ∧ Heard tokens excludes p line) := by
    intro line
    unfold lineEntry
    cases hq : pidOf line with
    | none => simp [Heard, Eligible, hq]
    | some q =>
      by_cases hqp : q = p
      · subst hqp
        by_cases hh : q ≠ cpid ∧ Heard tokens excludes q line
        · obtain ⟨t, ht, -⟩ := hh.2.2
          simp [hh, Option.mem_def.mp ht]
        · simp [hh]
      · have hnot : ¬ Heard tokens excludes p line := by
          rintro ⟨⟨hp, -⟩, -⟩
          exact hqp (Option.some.inj (hq.symm.trans hp))
        rw [Option.bind_some]
        split
        · cases heardToken tokens line <;> simp [hqp, hnot]
        · simp [hnot]
  simp only [hentry]
  by_cases hc : p = cpid
  · have hnone : (scanned output).find? (fun _ => false) = none := by simp
    simp only [hc, ne_eq, not_true_eq_false, false_and, decide_false, hnone, if_true,
      Option.bind_none, Option.map_none]
  · simp only [ne_eq, hc, not_false_eq_true, true_and, if_false]
    cases hf : (scanned output).find? (fun line => decide (Heard tokens excludes p line)) with
    | none => rfl
    | some line =>
      have hh : Heard tokens excludes p line := by simpa using List.find?_some hf
      obtain ⟨⟨hpid, hno⟩, t, ht, hnf⟩ := hh
      have hh : Heard tokens excludes p line := ⟨⟨hpid, hno⟩, t, ht, hnf⟩
      simp [lineEntry, hpid, hc, hh, Option.mem_def.mp ht]

/-! ## The selection law

A token that parses as an integer selects the process with that pid, any other
token selects by substring. The law quantifies over all lines of the listing.
-/

def Selects (p : Int) (line : GoString) (t : ProcessToken) : Prop :=
  match atoi (tokenText t) with
  | some n => n = p
  | none => Occurs line t

instance (p : Int) (line : GoString) : DecidablePred (Selects p line) := fun t => by
  unfold Selects
  split <;> infer_instance

def Selected (tokens excludes : ProcessTokens) (p : Int) (line : GoString) : Prop :=
  Eligible excludes p line ∧ ∃ t ∈ tokens, Selects p line t

instance (tokens excludes : ProcessTokens) (p : Int) :
    DecidablePred (Selected tokens excludes p) :=
  fun _ => inferInstanceAs (Decidable (_ ∧ _))

def listing (output : GoString) : List GoString := (lines output).map trimSpace

def selectedLine (tokens excludes : ProcessTokens) (output : GoString) (p : Int) :
    Option GoString :=
  (listing output).find? fun line => decide (Selected tokens excludes p line)

def selectingToken (tokens : ProcessTokens) (p : Int) (line : GoString) : Option ProcessToken :=
  tokens.find? fun t => decide (Selects p line t)

structure SelectionLaw (cpid : Int) (tokens excludes : ProcessTokens) (output : GoString)
    (pids : GoMap Int GoString) : Prop where
  mem_iff : ∀ p, p ∈ pids ↔ p ≠ cpid ∧ ∃ line ∈ listing output, Selected tokens excludes p line
  name : ∀ p ∈ pids, pids.lookup p = (selectedLine tokens excludes output p).bind fun line =>
    (selectingToken tokens p line).map tokenAppName

def heardLine (tokens excludes : ProcessTokens) (output : GoString) (p : Int) : Option GoString :=
  (scanned output).find? fun line => decide (Heard tokens excludes p line)

/-- Each process with a selected line is heard, in the part of the listing the
scan reaches, and under the application name of the token that selects it. -/
def HeardAsSelected (cpid : Int) (tokens excludes : ProcessTokens) (output : GoString) : Prop :=
  ∀ p ≠ cpid, ∀ line ∈ selectedLine tokens excludes output p,
    ∀ t ∈ selectingToken tokens p line,
      ∃ line' ∈ heardLine tokens excludes output p, ∃ t' ∈ heardToken tokens line',
        tokenAppName t' = tokenAppName t

theorem scanned_subset (output : GoString) : scanned output ⊆ listing output :=
  List.map_subset _ (scannedLines_isPrefixOf_lines output).subset

/-- A line heard for `p` is one that some token selects. -/
theorem selected_of_heard {tokens excludes : ProcessTokens} {p : Int} {line : GoString}
    (h : Heard tokens excludes p line) : Selected tokens excludes p line := by
  obtain ⟨he, t, ht, hf⟩ := h
  have hocc : Occurs line t := by simpa using List.find?_some ht
  refine ⟨he, t, List.mem_of_find?_eq_some ht, ?_⟩
  rw [foreign_iff] at hf
  unfold Selects
  cases hn : atoi (tokenText t) with
  | none => exact hocc
  | some n =>
    by_contra hne
    exact hf ⟨n, hn, hne⟩

theorem exists_selectingToken {tokens excludes : ProcessTokens} {p : Int} {line : GoString}
    (h : Selected tokens excludes p line) : ∃ t, selectingToken tokens p line = some t := by
  obtain ⟨-, t, ht, hs⟩ := h
  exact Option.isSome_iff_exists.mp (List.find?_isSome.mpr ⟨t, ht, decide_eq_true hs⟩)

theorem exists_selectedLine {tokens excludes : ProcessTokens} {output : GoString} {p : Int}
    {line : GoString} (hl : line ∈ listing output) (h : Selected tokens excludes p line) :
    ∃ line', selectedLine tokens excludes output p = some line' ∧
      Selected tokens excludes p line' := by
  have hsome : (selectedLine tokens excludes output p).isSome :=
    List.find?_isSome.mpr ⟨line, hl, decide_eq_true h⟩
  obtain ⟨line', hf⟩ := Option.isSome_iff_exists.mp hsome
  exact ⟨line', hf, by simpa using List.find?_some hf⟩

theorem heardName_eq_some_iff {cpid : Int} {tokens excludes : ProcessTokens} {output : GoString}
    {p : Int} {name : GoString} :
    heardName cpid tokens excludes output p = some name ↔
      p ≠ cpid ∧ ∃ line ∈ heardLine tokens excludes output p, ∃ t ∈ heardToken tokens line,
        tokenAppName t = name := by
  unfold heardName
  split
  · rename_i h
    simp [h]
  · rename_i h
    simp [h, heardLine, Option.bind_eq_some_iff]

/-- What the code records comes from a selected line of the listing. -/
theorem selected_of_heardLine {tokens excludes : ProcessTokens} {output : GoString} {p : Int}
    {line : GoString} (h : heardLine tokens excludes output p = some line) :
    line ∈ listing output ∧ Selected tokens excludes p line :=
  ⟨scanned_subset output (List.mem_of_find?_eq_some h),
    selected_of_heard (by simpa using List.find?_some h)⟩

/-- The code obeys the selection law on a listing exactly when every selected
process is heard under the name of its selecting token. -/
theorem getProcessIds_law_iff (cpid : Int) (tokens excludes : ProcessTokens) (output : GoString) :
    ∃ pids, getProcessIds cpid (.ok output) tokens excludes = .ok pids ∧
      (SelectionLaw cpid tokens excludes output pids ↔
        HeardAsSelected cpid tokens excludes output) := by
  refine ⟨_, rfl, ?_⟩
  generalize hpids : (scannedLines output).foldl (scanLine cpid tokens excludes) ∅ = pids
  have hlookup : ∀ p, pids.lookup p = heardName cpid tokens excludes output p :=
    lookup_getProcessIds (congrArg Except.ok hpids)
  constructor
  · intro law p hp line hline t ht
    have hsel : Selected tokens excludes p line := by
      simpa using List.find?_some (Option.mem_def.mp hline)
    have hmem : p ∈ pids := (law.mem_iff p).mpr
      ⟨hp, line, List.mem_of_find?_eq_some (Option.mem_def.mp hline), hsel⟩
    have hname := law.name p hmem
    rw [hlookup, Option.mem_def.mp hline, Option.bind_some, Option.mem_def.mp ht,
      Option.map_some] at hname
    exact (heardName_eq_some_iff.mp hname).2
  · intro hcond
    have hheard : ∀ p, p ∈ pids → p ≠ cpid ∧ ∃ line ∈ listing output,
        Selected tokens excludes p line := by
      intro p hp
      obtain ⟨name, hname⟩ := Finmap.mem_iff.mp hp
      rw [hlookup] at hname
      obtain ⟨hc, line, hline, -⟩ := heardName_eq_some_iff.mp hname
      exact ⟨hc, line, selected_of_heardLine hline⟩
    have hrecord : ∀ p, p ≠ cpid → (∃ line ∈ listing output, Selected tokens excludes p line) →
        ∃ name, pids.lookup p = some name ∧
          (selectedLine tokens excludes output p).bind (fun line =>
            (selectingToken tokens p line).map tokenAppName) = some name := by
      intro p hc hex
      obtain ⟨line, hl, hsel⟩ := hex
      obtain ⟨line₀, hline₀, hsel₀⟩ := exists_selectedLine hl hsel
      obtain ⟨t₀, ht₀⟩ := exists_selectingToken hsel₀
      obtain ⟨line', hline', t', ht', hname⟩ := hcond p hc line₀ hline₀ t₀ ht₀
      refine ⟨tokenAppName t₀, ?_, by rw [hline₀, Option.bind_some, ht₀, Option.map_some]⟩
      rw [hlookup]
      exact heardName_eq_some_iff.mpr ⟨hc, line', hline', t', ht', hname⟩
    constructor
    · intro p
      refine ⟨hheard p, ?_⟩
      intro hex
      obtain ⟨hc, hex⟩ := hex
      obtain ⟨name, hname, -⟩ := hrecord p hc hex
      exact Finmap.mem_iff.mpr ⟨name, hname⟩
    · intro p hp
      obtain ⟨hc, hex⟩ := hheard p hp
      obtain ⟨name, hname, hspec⟩ := hrecord p hc hex
      rw [hname, hspec]

/-- The digits of the first token occur in a line of another process, and the
token behind it, which selects the line, is never asked. -/
theorem getProcessIds_drops_selected :
    getProcessIds 1 (.ok (str "root 200 9 123.jar java\n")) [str "123", str "java$shop"] [] =
        .ok ∅ ∧
      ¬ SelectionLaw 1 [str "123", str "java$shop"] [] (str "root 200 9 123.jar java\n") ∅ := by
  refine ⟨by rfl, fun law => ?_⟩
  have hsel : ∃ line ∈ listing (str "root 200 9 123.jar java\n"),
      Selected [str "123", str "java$shop"] [] 200 line := by decide
  have hmem := (law.mem_iff 200).mpr ⟨by decide, hsel⟩
  exact Finmap.notMem_empty hmem

end YcAgent.Capture.ProcOthers
