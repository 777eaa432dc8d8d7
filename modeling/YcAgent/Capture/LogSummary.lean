import YcAgent.Base.RangeMap
import YcAgent.Capture.AppLog

/-!
# Summaries of the log captures

Both log captures grow a list of results and a list of errors in nested loops, and the summary
goes through the first and takes the error of a result by its index. Globs and captures are steps
of an outside world of any type; what they yield is the log of a run.
-/
namespace YcAgent.Capture.LogSummary

open Go

structure Lists where
  results : List Result
  errs : List (Option GoString)

def Lists.append (l : Lists) (r : Result) (err : Option GoString) : Lists :=
  ⟨l.results ++ [r], l.errs ++ [err]⟩

/-- The variables of `summarizeResults`. -/
structure Summary where
  buf : GoString
  hasSuccess : Bool
  lastErr : Option GoString

def Summary.turn (s : Summary) (r : Result) (err : Option GoString) : Summary :=
  let buf := s.buf ++ str "Msg: " ++ r.msg ++ str "\nOk: " ++ formatBool r.ok
  let s := if r.ok then { s with buf := buf, hasSuccess := true } else { s with buf := buf }
  let s := match err with
    | none => s
    | some e => { s with buf := s.buf ++ str "\nErr: " ++ e, lastErr := some e }
  { s with buf := s.buf ++ str "\n----\n" }

/-- The loop from the `i`-th result on; there is no outcome where an index is out of range. -/
def summaryLoop (errs : List (Option GoString)) : ℕ → List Result → Summary → Option Summary
  | _, [], s => some s
  | i, r :: results, s => do
    let err ← errs[i]?
    summaryLoop errs (i + 1) results (s.turn r err)

def summarizeResults (l : Lists) : Option (Result × Option GoString) := do
  let s ← summaryLoop l.errs 0 l.results ⟨[], false, none⟩
  if s.hasSuccess = false ∧ s.lastErr.isSome then some (⟨s.buf, false⟩, s.lastErr)
  else some (⟨s.buf, s.hasSuccess⟩, none)

/-- What the loops of a capture do: `κ` is a pattern with what goes with it. -/
structure Task (κ σ : Type*) where
  pattern : κ → GoString
  invalid : κ → GoString
  glob : GoString → σ → Except GoString (List GoString) × σ
  capture : κ → GoString → σ → (Result × Option GoString) × σ

section Task

variable {κ σ : Type*} (t : Task κ σ)

def Task.file (k : κ) (s : Lists × σ) (filePath : GoString) : Lists × σ :=
  let ((r, err), w) := t.capture k filePath s.2
  (s.1.append r err, w)

def Task.path (s : Lists × σ) (k : κ) : Lists × σ :=
  match t.glob (t.pattern k) s.2 with
  | (.error e, w) => (s.1.append ⟨t.invalid k, false⟩ (some e), w)
  | (.ok files, w) => files.foldl (t.file k) (s.1, w)

end Task

section Run

variable {σ : Type*} (glob : GoString → σ → Except GoString (List GoString) × σ)

/-- `AppLog.Run`. -/
def appLogTask (capture : GoString → σ → (Result × Option GoString) × σ) : Task GoString σ where
  pattern path := path
  invalid path := str "invalid glob pattern: " ++ path
  glob := glob
  capture _ := capture

def appLogLists (capture : GoString → σ → (Result × Option GoString) × σ) (paths : List GoString)
    (w : σ) : Lists :=
  (paths.foldl (appLogTask glob capture).path (⟨[], []⟩, w)).1

def appLogRun (capture : GoString → σ → (Result × Option GoString) × σ) (paths : List GoString)
    (w : σ) : Option (Result × Option GoString) :=
  summarizeResults (appLogLists glob capture paths w)

/-- `AppLogM3.Run`; `quote` is the verb `%q`. -/
def appLogM3Task (quote : GoString → GoString)
    (capture : GoString → ℤ → σ → (Result × Option GoString) × σ) : Task (ℤ × GoString) σ where
  pattern k := k.2
  invalid k := str "invalid glob pattern " ++ quote k.2
  glob := glob
  capture k filePath := capture filePath k.1

variable (quote : GoString → GoString) (capture : GoString → ℤ → σ → (Result × Option GoString) × σ)
  (order : RangeOrder ℤ (List GoString)) (paths : RangeMap ℤ (List GoString))

def appLogM3Lists (w : σ) : Lists :=
  ((order.visit paths.entries).foldl (fun s entry =>
    entry.2.foldl (fun s path => (appLogM3Task glob quote capture).path s (entry.1, path)) s)
    (⟨[], []⟩, w)).1

def appLogM3Run (w : σ) : Option (Result × Option GoString) :=
  summarizeResults (appLogM3Lists glob quote capture order paths w)

end Run

/-! ## The log of a run -/

/-- A pattern that cannot be expanded, or a file that was captured. -/
inductive Tried (κ : Type*) where
  | pattern (k : κ) (err : GoString)
  | file (k : κ) (filePath : GoString) (result : Result) (err : Option GoString)

section Tried

variable {κ σ : Type*} (invalid : κ → GoString)

def Tried.result : Tried κ → Result
  | .pattern k _ => ⟨invalid k, false⟩
  | .file _ _ result _ => result

def Tried.err : Tried κ → Option GoString
  | .pattern _ err => some err
  | .file _ _ _ err => err

section Went

variable (pattern : κ → GoString) (glob : GoString → σ → Except GoString (List GoString) × σ)
  (capture : κ → GoString → σ → (Result × Option GoString) × σ)

/-- The captures of the files, one after another. -/
inductive Files (k : κ) : List GoString → σ → List (Tried κ) → σ → Prop where
  | nil (w : σ) : Files k [] w [] w
  | cons {filePath : GoString} {files : List GoString} {r : Result} {err : Option GoString}
      {w w' w'' : σ} {tried : List (Tried κ)} (captured : capture k filePath w = ((r, err), w'))
      (rest : Files k files w' tried w'') :
      Files k (filePath :: files) w (.file k filePath r err :: tried) w''

/-- What becomes of the patterns, one after another. -/
inductive Went : List κ → σ → List (Tried κ) → σ → Prop where
  | nil (w : σ) : Went [] w [] w
  | error {k : κ} {ks : List κ} {e : GoString} {w w' w'' : σ} {tried : List (Tried κ)}
      (expanded : glob (pattern k) w = (.error e, w')) (rest : Went ks w' tried w'') :
      Went (k :: ks) w (.pattern k e :: tried) w''
  | ok {k : κ} {ks : List κ} {files : List GoString} {w w₁ w₂ w₃ : σ}
      {first tried : List (Tried κ)} (expanded : glob (pattern k) w = (.ok files, w₁))
      (here : Files capture k files w₁ first w₂) (rest : Went ks w₂ tried w₃) :
      Went (k :: ks) w (first ++ tried) w₃

end Went

/-- The block of the message for a pattern or a file, with its own error. -/
def Tried.block (x : Tried κ) : GoString :=
  str "Msg: " ++ (x.result invalid).msg ++ str "\nOk: " ++ formatBool (x.result invalid).ok ++
    (match x.err with
      | none => []
      | some e => str "\nErr: " ++ e) ++ str "\n----\n"

def SomeFileOk (tried : List (Tried κ)) : Prop :=
  ∃ k filePath result err, Tried.file k filePath result err ∈ tried ∧ result.ok = true

def IsLastErr (tried : List (Tried κ)) (e : GoString) : Prop :=
  ∃ before x after, tried = before ++ x :: after ∧ x.err = some e ∧ ∀ y ∈ after, y.err = none

/-- The lists and what is returned are those of the log. -/
structure Faithful (tried : List (Tried κ)) (l : Lists) (r : Result) (err : Option GoString) :
    Prop where
  sameLength : l.results.length = l.errs.length
  ok : r.ok = true ↔ SomeFileOk tried
  failed : err ≠ none ↔ ¬ SomeFileOk tried ∧ ∃ x ∈ tried, x.err ≠ none
  last : ∀ e, err = some e → IsLastErr tried e
  msg : r.msg = tried.flatMap (Tried.block invalid)

end Tried

/-! ## The lists -/

section Lists

variable {κ σ : Type*} {t : Task κ σ}

theorem exists_files (capture : κ → GoString → σ → (Result × Option GoString) × σ) (k : κ)
    (files : List GoString) (w : σ) : ∃ tried w', Files capture k files w tried w' := by
  induction files generalizing w with
  | nil => exact ⟨[], w, .nil w⟩
  | cons filePath files ih =>
    obtain ⟨tried, w', hrest⟩ := ih (capture k filePath w).2
    exact ⟨_, w', .cons rfl hrest⟩

theorem exists_went (pattern : κ → GoString)
    (glob : GoString → σ → Except GoString (List GoString) × σ)
    (capture : κ → GoString → σ → (Result × Option GoString) × σ) (ks : List κ) (w : σ) :
    ∃ tried w', Went pattern glob capture ks w tried w' := by
  induction ks generalizing w with
  | nil => exact ⟨[], w, .nil w⟩
  | cons k ks ih =>
    cases hglob : glob (pattern k) w with
    | mk outcome w₁ =>
      cases outcome with
      | error e =>
        obtain ⟨tried, w', hrest⟩ := ih w₁
        exact ⟨_, w', .error hglob hrest⟩
      | ok files =>
        obtain ⟨first, w₂, hhere⟩ := exists_files capture k files w₁
        obtain ⟨tried, w', hrest⟩ := ih w₂
        exact ⟨_, w', .ok hglob hhere hrest⟩

/-- The lists with more outcomes behind them. -/
def Lists.extend (l : Lists) (ps : List (Result × Option GoString)) : Lists :=
  ⟨l.results ++ ps.map Prod.fst, l.errs ++ ps.map Prod.snd⟩

theorem Lists.extend_nil (l : Lists) : l.extend [] = l := by
  simp [Lists.extend]

theorem Lists.extend_cons (l : Lists) (p : Result × Option GoString)
    (ps : List (Result × Option GoString)) :
    (l.append p.1 p.2).extend ps = l.extend (p :: ps) := by
  simp [Lists.extend, Lists.append]

theorem Lists.extend_append (l : Lists) (ps qs : List (Result × Option GoString)) :
    (l.extend ps).extend qs = l.extend (ps ++ qs) := by
  simp [Lists.extend]

def Tried.outcome (invalid : κ → GoString) (x : Tried κ) : Result × Option GoString :=
  (x.result invalid, x.err)

theorem foldl_file {k : κ} {files : List GoString} {w w' : σ} {tried : List (Tried κ)}
    (h : Files t.capture k files w tried w') (l : Lists) :
    files.foldl (t.file k) (l, w) = (l.extend (tried.map (Tried.outcome t.invalid)), w') := by
  induction h generalizing l with
  | nil w => rw [List.foldl_nil, List.map_nil, Lists.extend_nil]
  | cons hcapture rest ih =>
    rw [List.foldl_cons, Task.file, hcapture, List.map_cons, ← Lists.extend_cons]
    exact ih _

theorem foldl_path {ks : List κ} {w w' : σ} {tried : List (Tried κ)}
    (h : Went t.pattern t.glob t.capture ks w tried w') (l : Lists) :
    ks.foldl t.path (l, w) = (l.extend (tried.map (Tried.outcome t.invalid)), w') := by
  induction h generalizing l with
  | nil w => rw [List.foldl_nil, List.map_nil, Lists.extend_nil]
  | error hglob rest ih =>
    rw [List.foldl_cons, Task.path, hglob, List.map_cons, ← Lists.extend_cons]
    exact ih _
  | ok hglob hhere rest ih =>
    rw [List.foldl_cons, Task.path, hglob, List.map_append, ← Lists.extend_append]
    dsimp only
    rw [foldl_file hhere]
    exact ih _

end Lists

/-! ## The summary -/

theorem turn_eq (s : Summary) (r : Result) (err : Option GoString) :
    s.turn r err = ⟨s.buf ++ AppLog.summary r err, s.hasSuccess || r.ok, err.or s.lastErr⟩ := by
  unfold Summary.turn AppLog.summary
  cases err <;> cases r.ok <;> simp

/-- Lists that grew together are gone through to the end. -/
theorem summaryLoop_map (ps : List (Result × Option GoString)) (before : List (Option GoString))
    (s : Summary) :
    summaryLoop (before ++ ps.map Prod.snd) before.length (ps.map Prod.fst) s =
      some (ps.foldl (fun s p => s.turn p.1 p.2) s) := by
  induction ps generalizing before s with
  | nil => rfl
  | cons p ps ih =>
    have hat : (before ++ (p :: ps).map Prod.snd)[before.length]? = some p.2 := by simp
    have hrest := ih (before ++ [p.2]) (s.turn p.1 p.2)
    rw [List.append_assoc, List.length_append] at hrest
    rw [List.map_cons, List.map_cons, summaryLoop, ← List.map_cons, hat]
    exact hrest

theorem foldl_turn (ps : List (Result × Option GoString)) :
    ps.foldl (fun s p => s.turn p.1 p.2) (⟨[], false, none⟩ : Summary) =
      ⟨ps.flatMap fun p => AppLog.summary p.1 p.2, ps.any fun p => p.1.ok,
        (ps.filterMap Prod.snd).getLast?⟩ := by
  induction ps using List.reverseRecOn with
  | nil => rfl
  | append_singleton ps p ih =>
    rw [List.foldl_append, ih, List.foldl_cons, List.foldl_nil, turn_eq]
    cases hp : p.2 <;> simp [hp]

/-- The summary by index is the summary of the pairs. -/
theorem summarizeResults_pairs (ps : List (Result × Option GoString)) :
    summarizeResults (Lists.extend ⟨[], []⟩ ps) = some (AppLog.summarizeResults ps) := by
  have hloop := summaryLoop_map ps [] ⟨[], false, none⟩
  rw [List.nil_append, List.length_nil, foldl_turn] at hloop
  rw [summarizeResults, Lists.extend, List.nil_append, List.nil_append, hloop,
    AppLog.summarizeResults]
  exact (apply_ite some _ _ _).symm

/-- An error is returned only where no result is a success, and then it is the last one. -/
theorem ok_summarizeResults (ps : List (Result × Option GoString)) :
    (AppLog.summarizeResults ps).1.ok = ps.any fun p => p.1.ok := by
  unfold AppLog.summarizeResults
  dsimp only
  split
  · rename_i h
    exact h.1.symm
  · rfl

theorem err_summarizeResults (ps : List (Result × Option GoString)) :
    (AppLog.summarizeResults ps).2 =
      if ps.any (fun p => p.1.ok) then none else (ps.filterMap Prod.snd).getLast? := by
  unfold AppLog.summarizeResults
  cases ps.any fun p => p.1.ok with
  | true => simp
  | false =>
    cases (ps.filterMap Prod.snd).getLast? <;> simp

theorem msg_summarizeResults (ps : List (Result × Option GoString)) :
    (AppLog.summarizeResults ps).1.msg = ps.flatMap fun p => AppLog.summary p.1 p.2 := by
  unfold AppLog.summarizeResults
  dsimp only
  split <;> rfl

/-! ## What is tried -/

section Tried

variable {κ : Type*} (invalid : κ → GoString)

theorem someFileOk_iff (tried : List (Tried κ)) :
    SomeFileOk tried ↔ (tried.map (Tried.outcome invalid)).any (fun p => p.1.ok) = true := by
  rw [List.any_map, List.any_eq_true]
  constructor
  · rintro ⟨k, filePath, result, err, hmem, hok⟩
    exact ⟨_, hmem, hok⟩
  · rintro ⟨x, hmem, hok⟩
    cases x with
    | pattern k e => cases hok
    | file k filePath result err => exact ⟨k, filePath, result, err, hmem, hok⟩

theorem isLastErr_of_getLast? {tried : List (Tried κ)} {e : GoString}
    (h : (tried.filterMap Tried.err).getLast? = some e) : IsLastErr tried e := by
  induction tried using List.reverseRecOn with
  | nil => cases h
  | append_singleton tried x ih =>
    rw [List.filterMap_append] at h
    cases hx : x.err with
    | some e' =>
      simp only [List.filterMap_cons, hx, List.filterMap_nil, List.getLast?_concat] at h
      exact ⟨tried, x, [], rfl, hx.trans h, nofun⟩
    | none =>
      simp only [List.filterMap_cons, hx, List.filterMap_nil, List.append_nil] at h
      obtain ⟨before, y, after, rfl, hy, hafter⟩ := ih h
      refine ⟨before, y, after ++ [x], by simp, hy, ?_⟩
      intro z hz
      rcases List.mem_append.mp hz with hz | hz
      · exact hafter z hz
      · rw [List.mem_singleton.mp hz]
        exact hx

theorem getLast?_ne_none_iff (tried : List (Tried κ)) :
    (tried.filterMap Tried.err).getLast? ≠ none ↔ ∃ x ∈ tried, x.err ≠ none := by
  rw [ne_eq, List.getLast?_eq_none_iff, List.filterMap_eq_nil_iff]
  simp

theorem block_eq (x : Tried κ) : x.block invalid = AppLog.summary (x.result invalid) x.err := by
  unfold Tried.block AppLog.summary
  cases x.err <;> simp

theorem summarizeResults_faithful (tried : List (Tried κ)) :
    let ps := tried.map (Tried.outcome invalid)
    ∃ r err, summarizeResults (Lists.extend ⟨[], []⟩ ps) = some (r, err) ∧
      Faithful invalid tried (Lists.extend ⟨[], []⟩ ps) r err := by
  intro ps
  refine ⟨(AppLog.summarizeResults ps).1, (AppLog.summarizeResults ps).2,
    summarizeResults_pairs _, ?_⟩
  have herrs : ps.filterMap Prod.snd = tried.filterMap Tried.err := List.filterMap_map
  have hok := someFileOk_iff invalid tried
  have herr := err_summarizeResults ps
  rw [herrs] at herr
  constructor
  · simp [Lists.extend]
  · rw [ok_summarizeResults, hok]
  · rw [herr, hok]
    split
    · rename_i h
      exact iff_of_false (fun hne => hne rfl) fun hno => hno.1 h
    · rename_i h
      rw [getLast?_ne_none_iff]
      exact (and_iff_right h).symm
  · intro e he
    rw [herr] at he
    split at he
    · cases he
    · exact isLastErr_of_getLast? he
  · rw [msg_summarizeResults, List.flatMap_map]
    exact List.flatMap_congr fun x _ => (block_eq invalid x).symm

end Tried

/-! ## Both captures -/

section Run

variable {σ : Type*}

/-- The patterns of all processes, in the order in which they are visited. -/
def visited (order : RangeOrder ℤ (List GoString)) (paths : RangeMap ℤ (List GoString)) :
    List (ℤ × GoString) :=
  (order.visit paths.entries).flatMap fun entry => entry.2.map fun path => (entry.1, path)

/-- What a log says about a pattern that is not valid. -/
def invalidGlob (path : GoString) : GoString := str "invalid glob pattern: " ++ path

def invalidGlobM3 (quote : GoString → GoString) (k : ℤ × GoString) : GoString :=
  str "invalid glob pattern " ++ quote k.2

theorem appLogLists_eq {glob : GoString → σ → Except GoString (List GoString) × σ}
    {capture : GoString → σ → (Result × Option GoString) × σ} {paths : List GoString} {w w' : σ}
    {tried : List (Tried GoString)} (h : Went id glob (fun _ => capture) paths w tried w') :
    appLogLists glob capture paths w =
      Lists.extend ⟨[], []⟩ (tried.map (Tried.outcome invalidGlob)) := by
  have hfold := foldl_path (t := appLogTask glob capture) h ⟨[], []⟩
  exact congrArg Prod.fst hfold

theorem appLogM3Lists_eq {glob : GoString → σ → Except GoString (List GoString) × σ}
    {quote : GoString → GoString} {capture : GoString → ℤ → σ → (Result × Option GoString) × σ}
    {order : RangeOrder ℤ (List GoString)} {paths : RangeMap ℤ (List GoString)} {w w' : σ}
    {tried : List (Tried (ℤ × GoString))}
    (h : Went Prod.snd glob (fun k filePath => capture filePath k.1) (visited order paths) w
      tried w') :
    appLogM3Lists glob quote capture order paths w =
      Lists.extend ⟨[], []⟩ (tried.map (Tried.outcome (invalidGlobM3 quote))) := by
  have hflat := foldl_path (t := appLogM3Task glob quote capture) h ⟨[], []⟩
  rw [visited, List.foldl_flatMap] at hflat
  simp only [List.foldl_map] at hflat
  rw [appLogM3Lists, hflat]
  rfl

/-- What both captures return is the summary of what they went through. -/
theorem runs_faithful (glob : GoString → σ → Except GoString (List GoString) × σ) (w : σ) :
    (∀ capture paths, ∃ tried w' r err, Went id glob (fun _ => capture) paths w tried w' ∧
      appLogRun glob capture paths w = some (r, err) ∧
      Faithful invalidGlob tried (appLogLists glob capture paths w) r err) ∧
    ∀ quote capture order paths, ∃ tried w' r err,
      Went Prod.snd glob (fun k filePath => capture filePath k.1) (visited order paths) w
        tried w' ∧
      appLogM3Run glob quote capture order paths w = some (r, err) ∧
      Faithful (invalidGlobM3 quote) tried
        (appLogM3Lists glob quote capture order paths w) r err := by
  constructor
  · intro capture paths
    obtain ⟨tried, w', hwent⟩ := exists_went id glob (fun _ => capture) paths w
    obtain ⟨r, err, hrun, hfaithful⟩ := summarizeResults_faithful invalidGlob tried
    rw [← appLogLists_eq hwent] at hrun hfaithful
    exact ⟨tried, w', r, err, hwent, hrun, hfaithful⟩
  · intro quote capture order paths
    obtain ⟨tried, w', hwent⟩ := exists_went Prod.snd glob
      (fun k filePath => capture filePath k.1) (visited order paths) w
    obtain ⟨r, err, hrun, hfaithful⟩ := summarizeResults_faithful (invalidGlobM3 quote) tried
    rw [← appLogM3Lists_eq hwent] at hrun hfaithful
    exact ⟨tried, w', r, err, hwent, hrun, hfaithful⟩

end Run

/-! ## The capture of whole files

The model of `AppLog` gives its steps by their number, and pairs a result with its error. -/

section Whole

variable (o : Options) (quote : GoString → GoString) (al : AppLog) (worlds : ℕ → AppLog.FileWorld)
  (glob : GoString → Except GoString (List GoString))

def countedGlob (path : GoString) (k : ℕ) : Except GoString (List GoString) × ℕ :=
  match glob path with
  | .error e => (.error e, k + 1)
  | .ok files => (.ok files, k)

def countedCapture (filePath : GoString) (k : ℕ) : (Result × Option GoString) × ℕ :=
  let c := AppLog.captureSingleAppLog o quote al filePath (worlds k)
  ((c.result, c.err), k + 1)

def wholeTask : Task GoString ℕ := appLogTask (countedGlob glob) (countedCapture o quote al worlds)

/-- The outcomes of jobs that are numbered from `k` on. -/
def outcomes (k : ℕ) (jobs : List AppLog.Job) : List (Result × Option GoString) :=
  (jobs.zipIdx k).map fun job =>
    let c := AppLog.runJob o quote al (worlds job.2) job.1
    (c.result, c.err)

theorem outcomes_append (k : ℕ) (jobs jobs' : List AppLog.Job) :
    outcomes o quote al worlds k (jobs ++ jobs') =
      outcomes o quote al worlds k jobs ++ outcomes o quote al worlds (k + jobs.length) jobs' := by
  rw [outcomes, List.zipIdx_append, List.map_append]
  rfl

theorem foldl_file_whole (path : GoString) (files : List GoString) (k : ℕ) (l : Lists) :
    files.foldl ((wholeTask o quote al worlds glob).file path) (l, k) =
      (l.extend (outcomes o quote al worlds k (files.map .file)), k + files.length) := by
  induction files generalizing k l with
  | nil => exact congrArg (fun l => (l, k)) (Lists.extend_nil l).symm
  | cons filePath files ih =>
    have hcount : k + (files.length + 1) = k + 1 + files.length := by omega
    rw [List.foldl_cons, List.length_cons, hcount, List.map_cons, outcomes, List.zipIdx_cons,
      List.map_cons, ← Lists.extend_cons]
    exact ih _ _

theorem foldl_path_whole (paths : List GoString) (k : ℕ) (l : Lists) :
    (paths.foldl (wholeTask o quote al worlds glob).path (l, k)).1 =
      l.extend (outcomes o quote al worlds k (AppLog.jobs { al with paths := paths } glob)) := by
  induction paths generalizing k l with
  | nil => exact (Lists.extend_nil l).symm
  | cons path paths ih =>
    have hjobs : AppLog.jobs { al with paths := path :: paths } glob =
        (match glob path with
          | .error e => [.invalidGlob path e]
          | .ok files => files.map .file) ++ AppLog.jobs { al with paths := paths } glob :=
      List.flatMap_cons
    rw [hjobs, outcomes_append, ← Lists.extend_append, List.foldl_cons]
    cases hglob : glob path with
    | error e =>
      have hstep : (wholeTask o quote al worlds glob).path (l, k) path =
          (l.append ⟨str "invalid glob pattern: " ++ path, false⟩ (some e), k + 1) := by
        simp only [Task.path, wholeTask, appLogTask, countedGlob, hglob]
      rw [hstep, ih]
      rfl
    | ok files =>
      have hstep : (wholeTask o quote al worlds glob).path (l, k) path =
          files.foldl ((wholeTask o quote al worlds glob).file path) (l, k) := by
        simp only [Task.path, wholeTask, appLogTask, countedGlob, hglob]
      rw [hstep, foldl_file_whole, ih, List.length_map]

/-- The capture of whole files is a run of the loops. -/
theorem run_whole :
    appLogRun (countedGlob glob) (countedCapture o quote al worlds) al.paths 0 =
      some (AppLog.run o quote al glob worlds) := by
  have hlists : appLogLists (countedGlob glob) (countedCapture o quote al worlds) al.paths 0 =
      Lists.extend ⟨[], []⟩ (outcomes o quote al worlds 0 (al.jobs glob)) :=
    foldl_path_whole o quote al worlds glob al.paths 0 ⟨[], []⟩
  rw [appLogRun, hlists, summarizeResults_pairs, AppLog.run, AppLog.captures, List.map_map]
  rfl

end Whole

end YcAgent.Capture.LogSummary
