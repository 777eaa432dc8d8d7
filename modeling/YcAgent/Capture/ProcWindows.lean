import YcAgent.Base.FirstWins
import YcAgent.Capture.ProcessTokens

/-!
# Process selection on Windows

The token loop is outside and the process loop inside, the excludes are turned
into a set of pids first, and every token is parsed once. An integer token that
is not the pid of a process falls through to the substring test.
-/
namespace YcAgent.Capture.ProcWindows

open Go

structure CIMProcess where
  processName : GoString
  commandLine : GoString
  processId : Int
  deriving DecidableEq

structure ParsedToken where
  stringToken : GoString
  intToken : Int
  isIntToken : Bool
  appName : GoString

/-- The agent itself and every pid with an excluded command line. -/
def excludedProcesses (ownPid : Int) (cimProcessList : List CIMProcess) (excludes : ProcessTokens) :
    GoMap Int Bool :=
  cimProcessList.foldl
    (fun excluded cimProcess =>
      if excludes.any (contains cimProcess.commandLine) then
        excluded.insert cimProcess.processId true
      else excluded)
    ((∅ : GoMap Int Bool).insert ownPid true)

/-- `intToken` is only read where `isIntToken` is set. -/
def parseToken (t : ProcessToken) : ParsedToken :=
  let (tokenStr, appName) := cutAppName t
  match atoi tokenStr with
  | some intVal => ⟨tokenStr, intVal, decide (0 < intVal), appName⟩
  | none => ⟨tokenStr, 0, false, appName⟩

def matched (token : ParsedToken) (cimProcess : CIMProcess) : Bool :=
  if token.isIntToken ∧ cimProcess.processId = token.intToken then true
  else if contains cimProcess.commandLine token.stringToken then true
  else false

/-- The inner loop of the process matching. -/
def processLoop (excluded : GoMap Int Bool) (token : ParsedToken)
    (cimProcessList : List CIMProcess) (pids : GoMap Int GoString) : GoMap Int GoString :=
  cimProcessList.foldl
    (fun pids cimProcess =>
      if (excluded.lookup cimProcess.processId).getD false then pids
      else if matched token cimProcess then setIfAbsent pids cimProcess.processId token.appName
      else pids)
    pids

/-- `GetProcessIds`; `unmarshal` is `json.Unmarshal` at the type of the list. -/
def getProcessIds (ownPid : Int) (output : Except GoString GoString)
    (unmarshal : GoString → Except GoString (List CIMProcess))
    (tokens excludes : ProcessTokens) : Except GoString (GoMap Int GoString) := do
  let output ← output
  let cimProcessList ← unmarshal output
  let excluded := excludedProcesses ownPid cimProcessList excludes
  let parsedTokens := tokens.map parseToken
  return parsedTokens.foldl
    (fun pids token => processLoop excluded token cimProcessList pids) ∅

/-! ## Exclusion and matching as relations -/

def Excluded (ownPid : Int) (procs : List CIMProcess) (excludes : ProcessTokens) (p : Int) : Prop :=
  p = ownPid ∨ ∃ q ∈ procs, q.processId = p ∧ ∃ exclude ∈ excludes, exclude <:+: q.commandLine

instance (ownPid : Int) (procs : List CIMProcess) (excludes : ProcessTokens) :
    DecidablePred (Excluded ownPid procs excludes) :=
  fun _ => inferInstanceAs (Decidable (_ ∨ _))

/-- The pid a token stands for, when it is a positive integer. -/
def tokenPid (t : ProcessToken) : Option Int := (atoi (tokenText t)).filter (0 < ·)

/-- The test of the matching loop. -/
def Hits (p : Int) (t : ProcessToken) (q : CIMProcess) : Prop :=
  q.processId = p ∧ (tokenPid t = some p ∨ tokenText t <:+: q.commandLine)

/-- The rule: a positive integer selects by pid, any other token by substring. -/
def Selects (p : Int) (t : ProcessToken) (q : CIMProcess) : Prop :=
  q.processId = p ∧ match tokenPid t with
    | some n => n = p
    | none => tokenText t <:+: q.commandLine

instance (p : Int) (t : ProcessToken) : DecidablePred (Hits p t) :=
  fun _ => inferInstanceAs (Decidable (_ ∧ _))

instance (p : Int) (t : ProcessToken) : DecidablePred (Selects p t) := fun q => by
  unfold Selects
  split <;> infer_instance

def hittingToken (procs : List CIMProcess) (tokens : ProcessTokens) (p : Int) :
    Option ProcessToken :=
  tokens.find? fun t => decide (∃ q ∈ procs, Hits p t q)

def selectingToken (procs : List CIMProcess) (tokens : ProcessTokens) (p : Int) :
    Option ProcessToken :=
  tokens.find? fun t => decide (∃ q ∈ procs, Selects p t q)

theorem lookup_excludedProcesses (ownPid : Int) (procs : List CIMProcess) (excludes : ProcessTokens)
    (p : Int) :
    ((excludedProcesses ownPid procs excludes).lookup p).getD false =
      decide (Excluded ownPid procs excludes p) := by
  have hfold : ∀ (procs : List CIMProcess) (m : GoMap Int Bool),
      ((procs.foldl (fun excluded q =>
        if excludes.any (contains q.commandLine) then excluded.insert q.processId true
        else excluded) m).lookup p).getD false =
        ((m.lookup p).getD false || decide (∃ q ∈ procs, q.processId = p ∧
          ∃ exclude ∈ excludes, exclude <:+: q.commandLine)) := by
    intro procs
    induction procs with
    | nil => simp
    | cons q procs ih =>
      intro m
      rw [List.foldl_cons, ih]
      by_cases hx : ∃ exclude ∈ excludes, exclude <:+: q.commandLine
      · have hany : excludes.any (contains q.commandLine) = true := by simpa using hx
        rw [if_pos hany]
        by_cases hq : q.processId = p
        · simp [hq, hx]
        · simp [Finmap.lookup_insert_of_ne _ (Ne.symm hq), hq]
      · have hany : ¬ excludes.any (contains q.commandLine) = true := by simpa using hx
        rw [if_neg hany]
        simp only [List.mem_cons, exists_eq_or_imp, hx, and_false, false_or]
  rw [excludedProcesses, hfold]
  by_cases hs : p = ownPid
  · subst hs
    simp [Excluded]
  · simp [Finmap.lookup_insert_of_ne _ hs, hs, Excluded]

theorem matched_parseToken (t : ProcessToken) (q : CIMProcess) :
    matched (parseToken t) q = decide (Hits q.processId t q) := by
  have htext : (cutAppName t).1 = tokenText t := rfl
  unfold matched parseToken Hits tokenPid
  simp only [htext]
  cases hn : atoi (tokenText t) with
  | none => simp
  | some n =>
    by_cases hpos : 0 < n
    · by_cases hq : q.processId = n
      · simp [hpos, hq]
      · simp [hpos, hq, Ne.symm hq]
    · have hnone : (some n).filter (fun n : Int => decide (0 < n)) = none := by
        simp [Option.filter, hpos]
      simp [hpos, hnone]

theorem parseToken_appName (t : ProcessToken) : (parseToken t).appName = tokenAppName t := by
  unfold parseToken tokenAppName
  cases hn : atoi (cutAppName t).1 <;> simp [hn]

/-! ## The recorded names -/

/-- The entries the matching adds in order, tokens outside and processes inside. -/
def entries (ownPid : Int) (procs : List CIMProcess) (tokens excludes : ProcessTokens) :
    List (Int × GoString) :=
  tokens.flatMap fun t =>
    (procs.filter fun q => ¬ Excluded ownPid procs excludes q.processId ∧ Hits q.processId t q).map
      fun q => (q.processId, tokenAppName t)

theorem processLoop_eq (ownPid : Int) (procs : List CIMProcess) (excludes : ProcessTokens)
    (t : ProcessToken) (qs : List CIMProcess) :
    ∀ pids : GoMap Int GoString,
      processLoop (excludedProcesses ownPid procs excludes) (parseToken t) qs pids =
        firstWins pids ((qs.filter fun q =>
          ¬ Excluded ownPid procs excludes q.processId ∧ Hits q.processId t q).map
            fun q => (q.processId, tokenAppName t)) := by
  induction qs with
  | nil => intro pids; rfl
  | cons q qs ih =>
    intro pids
    have hcons :
        processLoop (excludedProcesses ownPid procs excludes) (parseToken t) (q :: qs) pids =
        processLoop (excludedProcesses ownPid procs excludes) (parseToken t) qs
          (if Excluded ownPid procs excludes q.processId then pids
           else if Hits q.processId t q then setIfAbsent pids q.processId (tokenAppName t)
           else pids) := by
      simp only [processLoop, List.foldl_cons, lookup_excludedProcesses, matched_parseToken,
        parseToken_appName, decide_eq_true_eq]
    rw [hcons, ih]
    by_cases hx : Excluded ownPid procs excludes q.processId
    · simp [hx]
    · by_cases hm : Hits q.processId t q
      · simp [hx, hm, firstWins]
      · simp [hx, hm]

theorem getProcessIds_eq (ownPid : Int) (output : GoString) (procs : List CIMProcess)
    (tokens excludes : ProcessTokens) :
    getProcessIds ownPid (.ok output) (fun _ => .ok procs) tokens excludes =
      .ok (firstWins ∅ (entries ownPid procs tokens excludes)) := by
  have hfold : ∀ (ts : ProcessTokens) (pids : GoMap Int GoString),
      (ts.map parseToken).foldl (fun pids token =>
        processLoop (excludedProcesses ownPid procs excludes) token procs pids) pids =
      firstWins pids (entries ownPid procs ts excludes) := by
    intro ts
    induction ts with
    | nil => intro pids; rfl
    | cons t ts ih =>
      intro pids
      rw [List.map_cons, List.foldl_cons, ih, processLoop_eq, ← firstWins_append]
      rfl
  exact congrArg Except.ok (hfold tokens ∅)

/-- The name recorded for `p` is that of the first token that hits one of its entries. -/
theorem firstValue_entries (ownPid : Int) (procs : List CIMProcess)
    (tokens excludes : ProcessTokens) (p : Int) :
    firstValue p (entries ownPid procs tokens excludes) =
      if Excluded ownPid procs excludes p then none
      else (hittingToken procs tokens p).map tokenAppName := by
  induction tokens with
  | nil => simp [entries, firstValue, hittingToken]
  | cons t tokens ih =>
    have hcons : entries ownPid procs (t :: tokens) excludes =
        (procs.filter fun q => ¬ Excluded ownPid procs excludes q.processId ∧
          Hits q.processId t q).map (fun q => (q.processId, tokenAppName t)) ++
        entries ownPid procs tokens excludes := rfl
    have hhead : firstValue p ((procs.filter fun q => ¬ Excluded ownPid procs excludes q.processId ∧
        Hits q.processId t q).map fun q => (q.processId, tokenAppName t)) =
        if ¬ Excluded ownPid procs excludes p ∧ ∃ q ∈ procs, Hits p t q then some (tokenAppName t)
        else none := by
      rw [firstValue_map_const]
      refine if_congr ?_ rfl rfl
      constructor
      · rintro ⟨q, hq, rfl⟩
        have hq := List.mem_filter.mp hq
        obtain ⟨hx, hh⟩ := of_decide_eq_true hq.2
        exact ⟨hx, q, hq.1, hh⟩
      · intro hex
        obtain ⟨hx, q, hq, hh⟩ := hex
        have hp : q.processId = p := hh.1
        subst hp
        exact ⟨q, List.mem_filter.mpr ⟨hq, decide_eq_true ⟨hx, hh⟩⟩, rfl⟩
    rw [hcons, firstValue_append, hhead, ih]
    by_cases hx : Excluded ownPid procs excludes p
    · simp [hx]
    · by_cases hh : ∃ q ∈ procs, Hits p t q
      · simp [hx, hh, hittingToken]
      · simp [hx, hh, hittingToken]

/-! ## The selection law -/

theorem hits_of_selects {p : Int} {t : ProcessToken} {q : CIMProcess} (h : Selects p t q) :
    Hits p t q := by
  obtain ⟨hq, hsel⟩ := h
  refine ⟨hq, ?_⟩
  cases hn : tokenPid t with
  | none =>
    rw [hn] at hsel
    exact Or.inr hsel
  | some n =>
    rw [hn] at hsel
    exact Or.inl (congrArg some hsel)

/-- A hit that is no selection comes from a positive integer other than `p`. -/
theorem selects_iff_of_hits {p : Int} {t : ProcessToken} {q : CIMProcess} (h : Hits p t q) :
    Selects p t q ↔ ∀ n, tokenPid t = some n → n = p := by
  obtain ⟨hq, hhit⟩ := h
  cases hn : tokenPid t with
  | none => simpa [Selects, hq, hn] using hhit
  | some n => simp [Selects, hq, hn]

structure SelectionLaw (ownPid : Int) (tokens excludes : ProcessTokens) (procs : List CIMProcess)
    (pids : GoMap Int GoString) : Prop where
  mem_iff : ∀ p, p ∈ pids ↔
    ¬ Excluded ownPid procs excludes p ∧ ∃ t ∈ tokens, ∃ q ∈ procs, Selects p t q
  name : ∀ p ∈ pids, pids.lookup p = (selectingToken procs tokens p).map tokenAppName
  order : ∀ procs', procs'.Perm procs → ∀ output,
    getProcessIds ownPid (.ok output) (fun _ => .ok procs') tokens excludes = .ok pids

/-- Where the first token that hits a process is an integer other than its pid,
a later token selects the process and carries the same application name. -/
def ForeignHitsAgree (ownPid : Int) (tokens excludes : ProcessTokens) (procs : List CIMProcess) :
    Prop :=
  ∀ p, ¬ Excluded ownPid procs excludes p → ∀ t ∈ hittingToken procs tokens p,
    ∀ n ∈ tokenPid t, n ≠ p →
      ∃ t' ∈ selectingToken procs tokens p, tokenAppName t' = tokenAppName t

theorem excluded_perm {ownPid : Int} {procs procs' : List CIMProcess} {excludes : ProcessTokens}
    (h : procs'.Perm procs) (p : Int) :
    Excluded ownPid procs' excludes p ↔ Excluded ownPid procs excludes p := by
  simp only [Excluded, h.mem_iff]

theorem hittingToken_perm {procs procs' : List CIMProcess} (h : procs'.Perm procs)
    (tokens : ProcessTokens) (p : Int) :
    hittingToken procs' tokens p = hittingToken procs tokens p := by
  simp only [hittingToken, h.mem_iff]

/-- The result depends on the process list as a set only. -/
theorem getProcessIds_perm {ownPid : Int} {tokens excludes : ProcessTokens}
    {procs procs' : List CIMProcess} (h : procs'.Perm procs) (output output' : GoString) :
    getProcessIds ownPid (.ok output') (fun _ => .ok procs') tokens excludes =
      getProcessIds ownPid (.ok output) (fun _ => .ok procs) tokens excludes := by
  rw [getProcessIds_eq, getProcessIds_eq]
  refine congrArg Except.ok (Finmap.ext_lookup fun p => ?_)
  rw [lookup_firstWins_empty, lookup_firstWins_empty, firstValue_entries, firstValue_entries,
    hittingToken_perm h, if_congr (excluded_perm h p) rfl rfl]

/-- The selecting token is the hitting token as soon as that one selects. -/
theorem selectingToken_of_hitting {procs : List CIMProcess} {tokens : ProcessTokens} {p : Int}
    {t : ProcessToken} (h : hittingToken procs tokens p = some t)
    (hsel : ∃ q ∈ procs, Selects p t q) : selectingToken procs tokens p = some t := by
  obtain ⟨-, before, after, hsplit, hbefore⟩ := List.find?_eq_some_iff_append.mp h
  refine List.find?_eq_some_iff_append.mpr
    ⟨decide_eq_true hsel, before, after, hsplit, fun u hu => ?_⟩
  have hno : ¬ ∃ q ∈ procs, Hits p u q := by simpa using hbefore u hu
  have : ¬ ∃ q ∈ procs, Selects p u q := fun ⟨q, hq, hs⟩ => hno ⟨q, hq, hits_of_selects hs⟩
  simpa using this

/-- The recorded name is the one the rule asks for at a process that is not
excluded exactly where a foreign hit agrees with the selecting token. -/
theorem hitting_eq_selecting_iff (procs : List CIMProcess) (tokens : ProcessTokens) (p : Int) :
    (hittingToken procs tokens p).map tokenAppName =
        (selectingToken procs tokens p).map tokenAppName ↔
      ∀ t ∈ hittingToken procs tokens p, ∀ n ∈ tokenPid t, n ≠ p →
        ∃ t' ∈ selectingToken procs tokens p, tokenAppName t' = tokenAppName t := by
  cases ht : hittingToken procs tokens p with
  | none =>
    have hnone : selectingToken procs tokens p = none := by
      have hno : ∀ t ∈ tokens, ¬ ∃ q ∈ procs, Hits p t q := by
        simpa [hittingToken] using ht
      refine List.find?_eq_none.mpr fun t hmem => ?_
      have : ¬ ∃ q ∈ procs, Selects p t q :=
        fun ⟨q, hq, hs⟩ => hno t hmem ⟨q, hq, hits_of_selects hs⟩
      simpa using this
    simp [hnone]
  | some t =>
    obtain ⟨q, hq, hhit⟩ : ∃ q ∈ procs, Hits p t q := by simpa using List.find?_some ht
    by_cases hsel : ∀ n, tokenPid t = some n → n = p
    · have hs := selectingToken_of_hitting ht ⟨q, hq, (selects_iff_of_hits hhit).mpr hsel⟩
      rw [hs]
      refine iff_of_true rfl ?_
      intro u hu n hn hne
      obtain rfl := Option.some.inj hu
      exact absurd (hsel n hn) hne
    · push Not at hsel
      obtain ⟨n, hn, hne⟩ := hsel
      constructor
      · intro heq u hu _ _ _
        obtain rfl := Option.some.inj hu
        rw [Option.map_some] at heq
        obtain ⟨t', ht', hname⟩ := Option.map_eq_some_iff.mp heq.symm
        exact ⟨t', ht', hname⟩
      · intro hcond
        obtain ⟨t', ht', hname⟩ := hcond t rfl n hn hne
        rw [Option.mem_def.mp ht', Option.map_some, Option.map_some, hname]

/-- The Windows version obeys the law on a process list exactly when its foreign
hits agree with the selecting tokens. -/
theorem getProcessIds_windows_law_iff (ownPid : Int) (tokens excludes : ProcessTokens)
    (procs : List CIMProcess) (output : GoString) :
    ∃ pids, getProcessIds ownPid (.ok output) (fun _ => .ok procs) tokens excludes = .ok pids ∧
      (SelectionLaw ownPid tokens excludes procs pids ↔
        ForeignHitsAgree ownPid tokens excludes procs) := by
  refine ⟨_, getProcessIds_eq ownPid output procs tokens excludes, ?_⟩
  have hlookup : ∀ p, (firstWins ∅ (entries ownPid procs tokens excludes)).lookup p =
      if Excluded ownPid procs excludes p then none
      else (hittingToken procs tokens p).map tokenAppName := fun p => by
    rw [lookup_firstWins_empty, firstValue_entries]
  have hselected : ∀ p, (selectingToken procs tokens p).isSome ↔
      ∃ t ∈ tokens, ∃ q ∈ procs, Selects p t q := fun p => by
    simp [selectingToken]
  constructor
  · intro law p hx
    refine (hitting_eq_selecting_iff procs tokens p).mp ?_
    have hp := hlookup p
    rw [if_neg hx] at hp
    rw [← hp]
    by_cases hmem : p ∈ firstWins ∅ (entries ownPid procs tokens excludes)
    · exact law.name p hmem
    · have hnone : selectingToken procs tokens p = none := by
        have hno := mt (law.mem_iff p).mpr hmem
        rw [← hselected p] at hno
        simpa [hx] using hno
      rw [Finmap.lookup_eq_none.mpr hmem, hnone, Option.map_none]
  · intro hcond
    have hname : ∀ p, ¬ Excluded ownPid procs excludes p →
        (firstWins ∅ (entries ownPid procs tokens excludes)).lookup p =
          (selectingToken procs tokens p).map tokenAppName := by
      intro p hx
      rw [hlookup, if_neg hx]
      exact (hitting_eq_selecting_iff procs tokens p).mpr (hcond p hx)
    have hnot : ∀ p ∈ firstWins ∅ (entries ownPid procs tokens excludes),
        ¬ Excluded ownPid procs excludes p := by
      intro p hp hx
      obtain ⟨name, hl⟩ := Finmap.mem_iff.mp hp
      rw [hlookup, if_pos hx] at hl
      cases hl
    constructor
    · intro p
      rw [← hselected p]
      constructor
      · intro hp
        obtain ⟨name, hl⟩ := Finmap.mem_iff.mp hp
        rw [hname p (hnot p hp)] at hl
        obtain ⟨t, ht, -⟩ := Option.map_eq_some_iff.mp hl
        exact ⟨hnot p hp, by simp [ht]⟩
      · intro hex
        obtain ⟨hx, hs⟩ := hex
        obtain ⟨t, ht⟩ := Option.isSome_iff_exists.mp hs
        exact Finmap.mem_iff.mpr ⟨tokenAppName t, by rw [hname p hx, ht, Option.map_some]⟩
    · intro p hp
      exact hname p (hnot p hp)
    · intro procs' hperm output'
      rw [getProcessIds_perm hperm output output', getProcessIds_eq]

/-- The digits of an integer token occur in the command line of another process,
which the loop then records. -/
theorem getProcessIds_takes_foreign :
    getProcessIds 1 (.ok []) (fun _ => .ok [⟨str "java", str "java -Xmx123m", 200⟩])
        [str "123"] [] = .ok (setIfAbsent ∅ 200 []) ∧
      ¬ SelectionLaw 1 [str "123"] [] [⟨str "java", str "java -Xmx123m", 200⟩]
        (setIfAbsent ∅ 200 []) := by
  refine ⟨by rfl, fun law => ?_⟩
  have hlookup : (setIfAbsent (∅ : GoMap Int GoString) 200 []).lookup 200 = some [] := by
    rw [lookup_setIfAbsent, Finmap.lookup_empty, Option.none_or, if_pos rfl]
  have hsel := ((law.mem_iff 200).mp (Finmap.mem_iff.mpr ⟨[], hlookup⟩)).2
  revert hsel
  decide

end YcAgent.Capture.ProcWindows
