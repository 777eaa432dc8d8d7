import YcAgent.Capture.GCDisk

/-!
# When a GC log cannot be collected

`GC.Run` goes on to jstat when it has no file, `uploadGCLogM3` when it has no file or an
error. They agree unless a file and an error come back together, and that happens on the
exits behind the creation of the output file.
-/
namespace YcAgent.Capture

open Go Go.FilePath

variable {σ : Type}

/-- An error with the output file still open. -/
def Collected.HalfMade (c : Collected σ) : Prop := c.err ≠ none ∧ c.gc ≠ none

/-- The two callers try jstat alike, and jattach behind a jstat that fails for both. -/
def SameFallback (gc : Option GoString) (err : Option OsError) (pid : Int) : Prop :=
  ∀ opened copied started waited, opened .jstat = (started && waited) →
    (.jstat ∈ GC.attempts gc pid opened copied ↔
      .jstat ∈ uploadGCLogM3Attempts gc err started waited) ∧
    (.jattach ∈ GC.attempts gc pid opened copied ↔
      .jattach ∈ uploadGCLogM3Attempts gc err started waited)

/-- What the callers need of a collection: an error comes without a file. -/
def FallsBack (run : Option (Collected σ)) (pid : Int) : Prop :=
  ∀ c, run = some c → (c.err ≠ none → c.gc = none) ∧ (0 < pid → SameFallback c.gc c.err pid)

section HalfMade

variable (sys : System σ) (compile : Compile) (sorter : SortSlice)

/-- A current log is there, its index is a number and its copy ends well. -/
def CurrentCollected (path out dockerID : GoString) (pid : Int) (r : Rotation) (s : σ) : Prop :=
  ∃ p, 2 ≤ r.rf.length ∧ atoiResult (r.rf.getD 1 []) = (p, none) ∧
    (collectCurrent sys path out dockerID pid r.rf
      (collectPrevious sys path out dockerID pid p r.files s)).1 = none

/-- Without docker the output file comes first; then the log cannot be copied, and for another
reason than its absence or with no current log of a rotation to take its place. -/
def LocalHalfMade (path out : GoString) (pid : Int) (s : σ) : Prop :=
  ∃ s₁ s₂ err, sys.create out s = .ok s₁ ∧ copyFile sys out path pid s₁ = (some err, s₂) ∧
    (err.notExist = false ∨
      ∃ fs r, directoryNames sys path [] s₂ = .ok fs ∧ rotation compile path fs = some r ∧
        ¬ CurrentCollected sys path out [] pid r s₂)

/-- With docker the output file is opened for a rotation only, and its current log cannot be
copied. -/
def DockerHalfMade (path out dockerID : GoString) (pid : Int) (s : σ) : Prop :=
  ∃ s₁ s₂ err fs r p, sys.dockerCopy out (dockerID ++ str ":" ++ path) s = (some err, s₁) ∧
    err.notExist = true ∧ directoryNames sys path dockerID s₁ = .ok fs ∧
    rotation compile path fs = some r ∧ 2 ≤ r.rf.length ∧
    atoiResult (r.rf.getD 1 []) = (p, none) ∧ sys.create out s₁ = .ok s₂ ∧
    (collectCurrent sys path out dockerID pid r.rf
      (collectPrevious sys path out dockerID pid p r.files s₂)).1 ≠ none

def StrandsOutput (gcPath out dockerID : GoString) (pid : Int) (s : σ) : Prop :=
  gcPath ≠ [] ∧ ∃ path,
    findLatestFileInRotatingLogFiles sys sorter (resolveTokens sys sorter gcPath pid s) s =
      some path ∧
    (dockerID = [] → LocalHalfMade sys compile path out pid s) ∧
    (dockerID ≠ [] → DockerHalfMade sys compile path out dockerID pid s)

end HalfMade

/-! ## The callers -/

theorem jstat_mem_attempts {gc : Option GoString} {pid : Int} {opened : Attempt → Bool}
    {copied : Bool} : .jstat ∈ GC.attempts gc pid opened copied ↔ gc = none ∧ 0 < pid := by
  unfold GC.attempts
  by_cases h : gc = none ∧ 0 < pid
  · simp [h]
  · simp [h]

theorem jattach_mem_attempts {gc : Option GoString} {pid : Int} {opened : Attempt → Bool}
    {copied : Bool} :
    .jattach ∈ GC.attempts gc pid opened copied ↔
      (gc = none ∧ 0 < pid) ∧ opened .jstat = false := by
  unfold GC.attempts
  by_cases h : gc = none ∧ 0 < pid
  · cases opened .jstat with
    | true => simp [h]
    | false => simp [h]
  · simp [h]

theorem jstat_mem_uploadGCLogM3Attempts {gc : Option GoString} {err : Option OsError}
    {started waited : Bool} :
    .jstat ∈ uploadGCLogM3Attempts gc err started waited ↔ gc = none ∨ err ≠ none := by
  unfold uploadGCLogM3Attempts
  by_cases h : gc = none ∨ err ≠ none
  · rw [if_pos h]
    simp [h]
  · rw [if_neg h]
    simp [h]

theorem jattach_mem_uploadGCLogM3Attempts {gc : Option GoString} {err : Option OsError}
    {started waited : Bool} :
    .jattach ∈ uploadGCLogM3Attempts gc err started waited ↔
      (gc = none ∨ err ≠ none) ∧ (started && waited) = false := by
  unfold uploadGCLogM3Attempts
  by_cases h : gc = none ∨ err ≠ none
  · rw [if_pos h]
    cases started && waited with
    | true => simp [h]
    | false => simp [h]
  · rw [if_neg h]
    simp [h]

theorem sameFallback_of_not_halfMade {c : Collected σ} (h : ¬ c.HalfMade) {pid : Int}
    (hpid : 0 < pid) : SameFallback c.gc c.err pid := by
  have hboth : (c.gc = none ∧ 0 < pid) ↔ (c.gc = none ∨ c.err ≠ none) := by
    constructor
    · intro hgc
      exact Or.inl hgc.1
    · intro hor
      refine ⟨?_, hpid⟩
      rcases hor with hgc | herr
      · exact hgc
      · by_contra hgc
        exact h ⟨herr, hgc⟩
  intro opened copied started waited hopened
  rw [jstat_mem_attempts, jattach_mem_attempts, jstat_mem_uploadGCLogM3Attempts,
    jattach_mem_uploadGCLogM3Attempts, hboth, hopened]
  exact ⟨Iff.rfl, Iff.rfl⟩

theorem fallsBack_iff {run : Option (Collected σ)} {pid : Int} :
    FallsBack run pid ↔ ¬ ∃ c, run = some c ∧ c.HalfMade := by
  constructor
  · intro h hex
    obtain ⟨c, hc, herr, hgc⟩ := hex
    exact hgc ((h c hc).1 herr)
  · intro h c hc
    have hnot : ¬ c.HalfMade := fun hhalf => h ⟨c, hc, hhalf⟩
    refine ⟨?_, fun hpid => sameFallback_of_not_halfMade hnot hpid⟩
    intro herr
    by_contra hgc
    exact hnot ⟨herr, hgc⟩

/-! ## The exits -/

variable {sys : System σ} {compile : Compile} {sorter : SortSlice}

/-- Without an index of the current log nothing is opened. -/
theorem secondAttempt_of_no_index {gc : Option GoString} {path out dockerID : GoString} {pid : Int}
    {r : Rotation} {s : σ}
    (h : ¬ ∃ p, 2 ≤ r.rf.length ∧ atoiResult (r.rf.getD 1 []) = (p, none)) :
    ∃ err, secondAttempt sys gc path out dockerID pid r s = ⟨gc, some err, s⟩ := by
  unfold secondAttempt
  by_cases hrf : r.rf.length < 2
  · rw [if_pos hrf]
    exact ⟨_, rfl⟩
  · rw [if_neg hrf]
    have hyes : 2 ≤ r.rf.length := by omega
    generalize atoiResult (r.rf.getD 1 []) = result at h ⊢
    obtain ⟨p, err⟩ := result
    cases err with
    | none => exact absurd ⟨p, hyes, rfl⟩ h
    | some err => exact ⟨_, rfl⟩

theorem secondAttempt_of_index {gc : Option GoString} {path out dockerID : GoString} {pid p : Int}
    {r : Rotation} {s : σ} (hlen : 2 ≤ r.rf.length)
    (hp : atoiResult (r.rf.getD 1 []) = (p, none)) :
    secondAttempt sys gc path out dockerID pid r s =
      match ensureOpen sys gc out s with
      | .error err => ⟨none, some err, s⟩
      | .ok s' =>
        let (err, s'') := collectCurrent sys path out dockerID pid r.rf
          (collectPrevious sys path out dockerID pid p r.files s')
        ⟨some out, err, s''⟩ := by
  have hno : ¬ r.rf.length < 2 := by omega
  unfold secondAttempt
  cases ensureOpen sys gc out s with
  | error err => simp only [if_neg hno, hp]
  | ok s' => simp only [if_neg hno, hp]

theorem currentCollected_iff {path out dockerID : GoString} {pid p : Int} {r : Rotation} {s : σ}
    (hlen : 2 ≤ r.rf.length) (hp : atoiResult (r.rf.getD 1 []) = (p, none)) :
    CurrentCollected sys path out dockerID pid r s ↔
      (collectCurrent sys path out dockerID pid r.rf
        (collectPrevious sys path out dockerID pid p r.files s)).1 = none := by
  constructor
  · intro ⟨p', _, hp', h⟩
    obtain ⟨rfl, -⟩ := Prod.mk.inj (hp.symm.trans hp')
    exact h
  · intro h
    exact ⟨p, hlen, hp, h⟩

/-- An output file that is open stays open, and the error is that of the current log. -/
theorem secondAttempt_open {path out dockerID : GoString} {pid : Int} {r : Rotation} {s : σ} :
    (secondAttempt sys (some out) path out dockerID pid r s).HalfMade ↔
      ¬ CurrentCollected sys path out dockerID pid r s := by
  by_cases hindex : ∃ p, 2 ≤ r.rf.length ∧ atoiResult (r.rf.getD 1 []) = (p, none)
  · obtain ⟨p, hlen, hp⟩ := hindex
    rw [secondAttempt_of_index hlen hp, not_iff_not.mpr (currentCollected_iff hlen hp)]
    simp [Collected.HalfMade, ensureOpen]
  · obtain ⟨err, hsecond⟩ := secondAttempt_of_no_index hindex
    have hnone : ¬ CurrentCollected sys path out dockerID pid r s :=
      fun ⟨p, hlen, hp, _⟩ => hindex ⟨p, hlen, hp⟩
    rw [hsecond]
    simp [Collected.HalfMade, hnone]

theorem secondAttempt_closed {path out dockerID : GoString} {pid : Int} {r : Rotation} {s : σ} :
    (secondAttempt sys none path out dockerID pid r s).HalfMade ↔
      ∃ p s', 2 ≤ r.rf.length ∧ atoiResult (r.rf.getD 1 []) = (p, none) ∧
        sys.create out s = .ok s' ∧
        (collectCurrent sys path out dockerID pid r.rf
          (collectPrevious sys path out dockerID pid p r.files s')).1 ≠ none := by
  by_cases hindex : ∃ p, 2 ≤ r.rf.length ∧ atoiResult (r.rf.getD 1 []) = (p, none)
  · obtain ⟨p, hlen, hp⟩ := hindex
    rw [secondAttempt_of_index hlen hp]
    cases hcreate : sys.create out s with
    | error err => simp [Collected.HalfMade, ensureOpen, hcreate]
    | ok s' =>
      simp only [Collected.HalfMade, ensureOpen, hcreate]
      constructor
      · intro h
        exact ⟨p, s', hlen, hp, rfl, h.1⟩
      · intro ⟨p', s'', _, hp', hs, h⟩
        obtain ⟨rfl, -⟩ := Prod.mk.inj (hp.symm.trans hp')
        cases hs
        exact ⟨h, by simp⟩
  · obtain ⟨err, hsecond⟩ := secondAttempt_of_no_index hindex
    rw [hsecond]
    constructor
    · intro h
      exact absurd rfl h.2
    · intro ⟨p, _, hlen, hp, _⟩
      exact absurd ⟨p, hlen, hp⟩ hindex

theorem not_returned_halfMade {path out dockerID : GoString} {pid : Int} {s : σ} {c : Collected σ}
    (h : firstAttempt sys path out dockerID pid s = .returned c) : ¬ c.HalfMade := by
  intro hhalf
  obtain ⟨herr, hgc⟩ := hhalf
  unfold firstAttempt at h
  split at h
  · split at h
    · split at h
      · cases h
        exact herr rfl
      · cases h
        exact hgc rfl
    · cases h
  · split at h
    · cases h
      exact hgc rfl
    · split at h
      · cases h
        exact herr rfl
      · cases h

theorem firstAttempt_local {path out : GoString} {pid : Int} {s s' : σ} {gc : Option GoString}
    {err : OsError} :
    firstAttempt sys path out [] pid s = .failed gc err s' ↔
      gc = some out ∧
        ∃ s₁, sys.create out s = .ok s₁ ∧ copyFile sys out path pid s₁ = (some err, s') := by
  unfold firstAttempt
  rw [if_neg (fun h => h rfl)]
  cases hcreate : sys.create out s with
  | error e => simp
  | ok s₁ =>
    simp only [Except.ok.injEq, exists_eq_left']
    obtain ⟨e, s₂⟩ := copyFile sys out path pid s₁
    cases e with
    | none => simp
    | some e =>
      simp only [FirstAttempt.failed.injEq, Prod.mk.injEq, Option.some.injEq]
      constructor
      · intro h
        exact ⟨h.1.symm, h.2⟩
      · intro h
        exact ⟨h.1.symm, h.2⟩

theorem firstAttempt_docker {path out dockerID : GoString} (hdocker : dockerID ≠ []) {pid : Int}
    {s s' : σ} {gc : Option GoString} {err : OsError} :
    firstAttempt sys path out dockerID pid s = .failed gc err s' ↔
      gc = none ∧ sys.dockerCopy out (dockerID ++ str ":" ++ path) s = (some err, s') := by
  unfold firstAttempt
  rw [if_pos hdocker]
  obtain ⟨e, s₁⟩ := sys.dockerCopy out (dockerID ++ str ":" ++ path) s
  cases e with
  | none =>
    simp only
    cases sys.openFile out s₁ with
    | none => simp
    | some e => simp
  | some e =>
    simp only [FirstAttempt.failed.injEq, Prod.mk.injEq, Option.some.injEq]
    constructor
    · intro h
      exact ⟨h.1.symm, h.2⟩
    · intro h
      exact ⟨h.1.symm, h.2⟩

/-- What a failed first attempt leads to. -/
theorem processGCLogFile_of_failed {gcPath out dockerID path : GoString} {pid : Int} {s s' : σ}
    {gc : Option GoString} {err : OsError} (hne : gcPath ≠ [])
    (hpath : findLatestFileInRotatingLogFiles sys sorter (resolveTokens sys sorter gcPath pid s) s =
      some path)
    (hfailed : firstAttempt sys path out dockerID pid s = .failed gc err s') :
    (∃ c, processGCLogFile sys compile sorter gcPath out dockerID pid s = some c ∧ c.HalfMade) ↔
      (err.notExist = false ∧ gc ≠ none) ∨
        (err.notExist = true ∧ ∃ fs r, directoryNames sys path dockerID s' = .ok fs ∧
          rotation compile path fs = some r ∧
          (secondAttempt sys gc path out dockerID pid r s').HalfMade) := by
  rw [processGCLogFile_of_path hne hpath, hfailed]
  simp only
  cases hexist : err.notExist with
  | false => simp [Collected.HalfMade]
  | true =>
    simp only [Bool.true_eq_false, if_false, false_and, true_and, false_or]
    cases directoryNames sys path dockerID s' with
    | error e => simp [Collected.HalfMade]
    | ok fs =>
      cases rotation compile path fs with
      | none => simp
      | some r => simp

theorem not_halfMade_of_returned {gcPath out dockerID path : GoString} {pid : Int} {s : σ}
    {c : Collected σ} (hne : gcPath ≠ [])
    (hpath : findLatestFileInRotatingLogFiles sys sorter (resolveTokens sys sorter gcPath pid s) s =
      some path)
    (hfirst : firstAttempt sys path out dockerID pid s = .returned c) :
    ¬ ∃ c, processGCLogFile sys compile sorter gcPath out dockerID pid s = some c ∧ c.HalfMade := by
  intro h
  obtain ⟨c', hc', hhalf⟩ := h
  rw [processGCLogFile_of_path hne hpath, hfirst] at hc'
  cases hc'
  exact not_returned_halfMade hfirst hhalf

theorem exists_halfMade_local {gcPath out path : GoString} {pid : Int} {s : σ} (hne : gcPath ≠ [])
    (hpath : findLatestFileInRotatingLogFiles sys sorter (resolveTokens sys sorter gcPath pid s) s =
      some path) :
    (∃ c, processGCLogFile sys compile sorter gcPath out [] pid s = some c ∧ c.HalfMade) ↔
      LocalHalfMade sys compile path out pid s := by
  cases hfirst : firstAttempt sys path out [] pid s with
  | returned c =>
    refine ⟨fun h => absurd h (not_halfMade_of_returned hne hpath hfirst), ?_⟩
    intro h
    obtain ⟨s₁, s₂, err, hcreate, hcopy, _⟩ := h
    have hfailed := firstAttempt_local.mpr ⟨rfl, s₁, hcreate, hcopy⟩
    rw [hfirst] at hfailed
    cases hfailed
  | failed gc err s' =>
    obtain ⟨rfl, s₁, hcreate, hcopy⟩ := firstAttempt_local.mp hfirst
    rw [processGCLogFile_of_failed hne hpath hfirst]
    constructor
    · intro h
      refine ⟨s₁, s', err, hcreate, hcopy, ?_⟩
      rcases h with h | ⟨_, fs, r, hfs, hr, hsecond⟩
      · exact Or.inl h.1
      · exact Or.inr ⟨fs, r, hfs, hr, secondAttempt_open.mp hsecond⟩
    · intro h
      obtain ⟨s₂, s₃, e, hcreate', hcopy', hexit⟩ := h
      obtain rfl := Except.ok.inj (hcreate.symm.trans hcreate')
      obtain ⟨he, rfl⟩ := Prod.mk.inj (hcopy.symm.trans hcopy')
      obtain rfl := Option.some.inj he
      cases hexist : err.notExist with
      | false => exact Or.inl ⟨rfl, Option.some_ne_none out⟩
      | true =>
        obtain ⟨fs, r, hfs, hr, hcurrent⟩ := hexit.resolve_left (by simp [hexist])
        exact Or.inr ⟨rfl, fs, r, hfs, hr, secondAttempt_open.mpr hcurrent⟩

theorem exists_halfMade_docker {gcPath out dockerID path : GoString} (hdocker : dockerID ≠ [])
    {pid : Int} {s : σ} (hne : gcPath ≠ [])
    (hpath : findLatestFileInRotatingLogFiles sys sorter (resolveTokens sys sorter gcPath pid s) s =
      some path) :
    (∃ c, processGCLogFile sys compile sorter gcPath out dockerID pid s = some c ∧ c.HalfMade) ↔
      DockerHalfMade sys compile path out dockerID pid s := by
  cases hfirst : firstAttempt sys path out dockerID pid s with
  | returned c =>
    refine ⟨fun h => absurd h (not_halfMade_of_returned hne hpath hfirst), ?_⟩
    intro h
    obtain ⟨s₁, s₂, err, fs, r, p, hcopy, _⟩ := h
    have hfailed : firstAttempt sys path out dockerID pid s = .failed none err s₁ :=
      (firstAttempt_docker hdocker).mpr ⟨rfl, hcopy⟩
    rw [hfirst] at hfailed
    cases hfailed
  | failed gc err s' =>
    obtain ⟨rfl, hcopy⟩ := (firstAttempt_docker hdocker).mp hfirst
    rw [processGCLogFile_of_failed hne hpath hfirst]
    constructor
    · intro h
      rcases h with h | ⟨hexist, fs, r, hfs, hr, hsecond⟩
      · exact absurd rfl h.2
      · obtain ⟨p, s₂, hlen, hp, hcreate, hcurrent⟩ := secondAttempt_closed.mp hsecond
        exact ⟨s', s₂, err, fs, r, p, hcopy, hexist, hfs, hr, hlen, hp, hcreate, hcurrent⟩
    · intro h
      obtain ⟨s₁, s₂, e, fs, r, p, hcopy', hexist, hfs, hr, hlen, hp, hcreate, hcurrent⟩ := h
      obtain ⟨he, rfl⟩ := Prod.mk.inj (hcopy.symm.trans hcopy')
      obtain rfl := Option.some.inj he
      have hsecond := secondAttempt_closed.mpr ⟨p, s₂, hlen, hp, hcreate, hcurrent⟩
      exact Or.inr ⟨hexist, fs, r, hfs, hr, hsecond⟩

theorem exists_halfMade_iff {gcPath out dockerID : GoString} {pid : Int} {s : σ} :
    (∃ c, processGCLogFile sys compile sorter gcPath out dockerID pid s = some c ∧ c.HalfMade) ↔
      StrandsOutput sys compile sorter gcPath out dockerID pid s := by
  by_cases hne : gcPath = []
  · subst hne
    simp [processGCLogFile, StrandsOutput, Collected.HalfMade]
  unfold StrandsOutput
  cases hpath : findLatestFileInRotatingLogFiles sys sorter
      (resolveTokens sys sorter gcPath pid s) s with
  | none => simp [processGCLogFile, hpath, hne]
  | some path =>
    by_cases hdocker : dockerID = []
    · subst hdocker
      rw [exists_halfMade_local hne hpath]
      simp [hne]
    · rw [exists_halfMade_docker hdocker hne hpath]
      simp [hne, hdocker]

/-- The callers can rely on the file exactly when no exit leaves it open behind an error. -/
theorem processGCLogFile_fallsBack_iff (sys : System σ) (compile : Compile) (sorter : SortSlice)
    (gcPath out dockerID : GoString) (pid : Int) (s : σ) :
    FallsBack (processGCLogFile sys compile sorter gcPath out dockerID pid s) pid ↔
      ¬ StrandsOutput sys compile sorter gcPath out dockerID pid s := by
  rw [fallsBack_iff, exists_halfMade_iff]

/-- A log that is not there, in a directory without a rotation: the error comes with a file. -/
theorem missing_log_strands_output :
    ¬ FallsBack (processGCLogFile (Disk.system Disk.listing) findsNothing SortSlice.stable
      (str "gc.log") (str "gc.7.log") [] 7 ⟨RangeMap.empty, 0⟩) 7 := by
  rw [fallsBack_iff, not_not, exists_halfMade_iff]
  have hpath : findLatestFileInRotatingLogFiles (Disk.system Disk.listing) SortSlice.stable
      (resolveTokens (Disk.system Disk.listing) SortSlice.stable (str "gc.log") 7
        ⟨RangeMap.empty, 0⟩)
      ⟨RangeMap.empty, 0⟩ = some (str "gc.log") := by
    have hinfos : ([].mapM fun file =>
        ((Disk.system Disk.listing).lstat file ⟨RangeMap.empty, 0⟩).toOption) = some [] := rfl
    rw [resolveTokens_of_not_mem (by decide), findLatest_of_infos rfl rfl hinfos,
      SortSlice.sort_nil]
  refine ⟨by decide, str "gc.log", hpath, ?_, fun hdocker => absurd rfl hdocker⟩
  intro _
  refine ⟨_, _, Disk.errNotExist, rfl, rfl, Or.inr ⟨[str "gc.7.log"], ⟨[], []⟩, rfl, rfl, ?_⟩⟩
  intro hcurrent
  obtain ⟨_, hlen, _⟩ := hcurrent
  exact absurd hlen (by decide)

end YcAgent.Capture
