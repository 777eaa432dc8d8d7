import YcAgent.Agent.M3AppLog

/-!
# Interference between monitored processes

What is posted for a process in M3 mode is what would be posted if it were the only one,
whatever the logs contain, exactly when no other process has one of its log files.
-/
namespace YcAgent.M3

open Go Capture Capture.AppLogM3

/-- The bytes of the request a call sent. -/
def sentBytes : Outcome → GoString
  | .posted _ p => (p.sent.map Prod.snd).getD []
  | _ => []

/-- The bytes the selected calls of a trace sent, in order. -/
def sentBy (sel : CallIn → Bool) (entries : List (CallIn × Outcome)) : GoString :=
  (entries.filter fun e => sel e.1).flatMap fun e => sentBytes e.2

/-- The log bytes posted with `pid=p`. -/
def postedFor (p : Int) (rs : List FileResult) : GoString :=
  sentBy (fun c => c.pid = p) (rs.filterMap FileResult.call)

/-- The bytes of `f` posted with `pid=p`. -/
def postedOf (p : Int) (f : GoString) (rs : List FileResult) : GoString :=
  sentBy (fun c => c.pid = p ∧ c.filePath = f) (rs.filterMap FileResult.call)

/-- The visits of `p`, as in the run where it is the only monitored process. -/
def solo (p : Int) (visits : List (Visit × Nat)) : List (Visit × Nat) :=
  visits.filter fun v => v.1.pid = p

def NonInterference (o : Options) (cycles : List (List Visit))
    (worlds : Nat → Nat → CallWorld) : Prop :=
  ∀ p, postedFor p (results o worlds (timeline cycles)) =
    postedFor p (results o worlds (solo p (timeline cycles)))

/-- A pattern of the visit matches `f`. -/
def Visit.Matches (o : Options) (v : Visit) (f : GoString) : Prop :=
  ∃ pattern ∈ v.appLogs o, ∃ ms, v.glob pattern = some ms ∧ f ∈ ms

/-- The log file `f` is matched for process `p` in some cycle. -/
def Matched (o : Options) (cycles : List (List Visit)) (p : Int) (f : GoString) : Prop :=
  ∃ v ∈ cycles.flatten, v.pid = p ∧ v.Matches o f

/-- Every step of a call works on a file that holds `content`. -/
structure Succeeds (w : CallWorld) (content : GoString) : Prop where
  stat : w.stat = some content.length
  opens : w.opens = true
  seek : w.seek = .ok
  creates : w.creates = true
  copy : ∀ start, w.copy start = some (content.drop start)
  syncs : w.syncs = true
  post : Accepted w.post

/-- What the calls for `f` find in it, in order. -/
def contentsSeen (o : Options) (content : Nat → Nat → GoString) (f : GoString)
    (visits : List (Visit × Nat)) : List GoString :=
  visits.flatMap fun v => (v.1.jobs o).filterMap fun job =>
    if job.1 = .file f v.1.pid then some (content v.2 job.2) else none

/-- What was appended between the first and the last of the contents. -/
def appended (contents : List GoString) : GoString :=
  (contents.getLastD []).drop (contents.headD []).length

/-- A file matched for two processes, which only grows while every step works, has each
newly appended byte posted for both. -/
def DeliversToBoth (o : Options) (cycles : List (List Visit))
    (worlds : Nat → Nat → CallWorld) : Prop :=
  ∀ f p q, p ≠ q → Matched o cycles p f → Matched o cycles q f →
    ∀ content : Nat → Nat → GoString, o .onlyCapture = false →
      (∀ i k, Succeeds (worlds i k) (content i k)) →
      (contentsSeen o content f (timeline cycles)).Pairwise (· <+: ·) →
      ∀ r, r = p ∨ r = q → postedOf r f (results o worlds (timeline cycles)) =
        appended (contentsSeen o content f (solo r (timeline cycles)))

variable {o : Options}

theorem mem_jobs_iff (v : Visit) (job : Job) :
    job ∈ AppLogM3.jobs v.glob ⟨[(v.pid, v.appLogs o)], ∅⟩ ↔
      ∃ path ∈ v.appLogs o, (v.glob path = none ∧ job = .invalidGlob path) ∨
        ∃ ms, v.glob path = some ms ∧ ∃ m ∈ ms, job = .file m v.pid := by
  simp only [AppLogM3.jobs, List.flatMap_cons, List.flatMap_nil, List.append_nil,
    List.mem_flatMap]
  refine exists_congr fun path => and_congr_right fun _ => ?_
  cases v.glob path with
  | none => simp
  | some ms => simp [eq_comm]

theorem matches_iff (v : Visit) (f : GoString) :
    v.Matches o f ↔ Job.file f v.pid ∈ AppLogM3.jobs v.glob ⟨[(v.pid, v.appLogs o)], ∅⟩ := by
  rw [mem_jobs_iff]
  refine exists_congr fun path => and_congr_right fun _ => ?_
  simp

/-- A call of a visit is one of its file jobs. -/
theorem mem_calls_iff {worlds : Nat → Nat → CallWorld} {v : Visit × Nat} {c : CallIn} :
    c ∈ calls o worlds v ↔ ∃ path k, (Job.file path v.1.pid, k) ∈ v.1.jobs o ∧
      c = ⟨path, v.1.pid, v.1.endpoint, worlds v.2 k⟩ := by
  rw [calls, callsOf, List.mem_filterMap]
  constructor
  · intro hex
    obtain ⟨⟨job, k⟩, hjob, hc⟩ := hex
    have hmem := List.fst_mem_of_mem_zipIdx hjob
    obtain ⟨path, -, h | ⟨ms, -, m, -, h⟩⟩ := (mem_jobs_iff v.1 job).mp hmem
    · rw [h.2] at hc
      cases hc
    · change job = _ at h
      subst h
      exact ⟨m, k, hjob, (Option.some.inj hc).symm⟩
  · rintro ⟨path, k, hjob, rfl⟩
    exact ⟨_, hjob, rfl⟩

theorem pid_of_mem_calls {worlds : Nat → Nat → CallWorld} {v : Visit × Nat} {c : CallIn}
    (h : c ∈ calls o worlds v) : c.pid = v.1.pid ∧ v.1.Matches o c.filePath := by
  obtain ⟨path, k, hjob, rfl⟩ := mem_calls_iff.mp h
  exact ⟨rfl, (matches_iff v.1 path).mpr (List.fst_mem_of_mem_zipIdx hjob)⟩

theorem exists_call (worlds : Nat → Nat → CallWorld) {v : Visit × Nat} {f : GoString}
    (h : v.1.Matches o f) : ∃ c ∈ calls o worlds v, c.filePath = f := by
  obtain ⟨k, hk⟩ := List.mem_iff_getElem?.mp ((matches_iff v.1 f).mp h)
  exact ⟨_, mem_calls_iff.mpr ⟨f, k, List.mk_mem_zipIdx_iff_getElem?.mpr hk, rfl⟩, rfl⟩

theorem solo_cons (p : Int) (v : Visit × Nat) (visits : List (Visit × Nat)) :
    solo p (v :: visits) = if v.1.pid = p then v :: solo p visits else solo p visits := by
  simp [solo, List.filter_cons]

/-- The calls of `p` are the calls of the visits of `p`. -/
theorem filter_calls (worlds : Nat → Nat → CallWorld) (p : Int) (visits : List (Visit × Nat)) :
    (visits.flatMap (calls o worlds)).filter (fun c => c.pid = p) =
      (solo p visits).flatMap (calls o worlds) := by
  induction visits with
  | nil => rfl
  | cons v visits ih =>
    rw [List.flatMap_cons, List.filter_append, ih, solo_cons]
    by_cases hv : v.1.pid = p
    · have hall : (calls o worlds v).filter (fun c => c.pid = p) = calls o worlds v := by
        refine List.filter_eq_self.mpr fun c hc => decide_eq_true ?_
        exact (pid_of_mem_calls hc).1.trans hv
      rw [hall, if_pos hv, List.flatMap_cons]
    · have hnone : (calls o worlds v).filter (fun c => c.pid = p) = [] := by
        refine List.filter_eq_nil_iff.mpr fun c hc hp => hv ?_
        exact (pid_of_mem_calls hc).1.symm.trans (of_decide_eq_true hp)
      rw [hnone, if_neg hv, List.nil_append]

/-- The part of `p` in a run, where no other process has one of its log files. -/
theorem sentBy_pid {worlds : Nat → Nat → CallWorld} {visits : List (Visit × Nat)} {p : Int}
    (hdisjoint : ∀ v ∈ visits, ∀ w ∈ visits, ∀ f, v.1.pid = p → v.1.Matches o f →
      w.1.Matches o f → w.1.pid = p) :
    postedFor p (results o worlds visits) = postedFor p (results o worlds (solo p visits)) := by
  have hlocal := local_captureSingleAppLog o
  have hcalls : ∀ c ∈ visits.flatMap (calls o worlds), ∀ d ∈ visits.flatMap (calls o worlds),
      decide (c.pid = p) = true → decide (d.pid = p) = false → c.filePath ≠ d.filePath := by
    intro c hc d hd hcp hdp heq
    obtain ⟨v, hv, hcv⟩ := List.mem_flatMap.mp hc
    obtain ⟨w, hw, hdw⟩ := List.mem_flatMap.mp hd
    obtain ⟨hcpid, hcm⟩ := pid_of_mem_calls hcv
    obtain ⟨hdpid, hdm⟩ := pid_of_mem_calls hdw
    have hwp := hdisjoint v hv w hw c.filePath (hcpid.symm.trans (of_decide_eq_true hcp)) hcm
      (heq ▸ hdm)
    exact of_decide_eq_false hdp (hdpid.trans hwp)
  have hsolo : ∀ c ∈ (solo p visits).flatMap (calls o worlds), decide (c.pid = p) = true := by
    rw [← filter_calls]
    exact fun c hc => (List.mem_filter.mp hc).2
  have hsoloCalls : ∀ c ∈ (solo p visits).flatMap (calls o worlds),
      ∀ d ∈ (solo p visits).flatMap (calls o worlds),
      decide (c.pid = p) = true → decide (d.pid = p) = false → c.filePath ≠ d.filePath :=
    fun c hc d hd _ hdp => absurd (hsolo d hd) (Bool.eq_false_iff.mp hdp)
  have hfull := Keyed.filter_trace hlocal (fun c => c.pid = p) (m := ∅) (fun _ _ _ => rfl) hcalls
  have hown := Keyed.filter_trace hlocal (fun c => c.pid = p) (m := ∅) (fun _ _ _ => rfl) hsoloCalls
  rw [filter_calls] at hfull
  rw [List.filter_eq_self.mpr hsolo] at hown
  rw [postedFor, postedFor, results_eq_trace, results_eq_trace, sentBy, sentBy, hfull, hown]

theorem timeline_mem {cycles : List (List Visit)} {v : Visit × Nat} (h : v ∈ timeline cycles) :
    v.1 ∈ cycles.flatten :=
  List.fst_mem_of_mem_zipIdx h

/-- Posting is off in only-capture mode. -/
theorem sentBytes_onlyCapture (ho : o .onlyCapture = true) (readStats : ReadStats) (c : CallIn) :
    sentBytes (captureSingleAppLog o readStats c).2 = [] := by
  have hposted : ∀ r : Reading, sentBytes (.posted r (r.post o c.endpoint c.world.post)) = [] :=
    fun r => by rw [Reading.post, postData_onlyCapture ho]; rfl
  unfold captureSingleAppLog
  repeat' split
  all_goals first | rfl | exact hposted _

theorem sentBy_onlyCapture (ho : o .onlyCapture = true) (sel : CallIn → Bool)
    (readStats : ReadStats) (cs : List CallIn) :
    sentBy sel (Keyed.trace (captureSingleAppLog o) readStats cs) = [] := by
  induction cs generalizing readStats with
  | nil => rfl
  | cons c cs ih =>
    rw [Keyed.trace, sentBy, List.filter_cons]
    split
    · rw [List.flatMap_cons, sentBytes_onlyCapture ho]
      exact ih _
    · exact ih _

/-- Every known file was last read at the end of what it holds. -/
def CaughtUp (content : GoString → GoString) (readStats : ReadStats) : Prop :=
  ∀ f st, readStats.lookup f = some st →
    st.fileSize = (content f).length ∧ st.readPosition = (content f).length

theorem caughtUp_insert {content : GoString → GoString} {readStats : ReadStats}
    (h : CaughtUp content readStats) (f : GoString) :
    CaughtUp content (readStats.insert f ⟨f, (content f).length, (content f).length⟩) :=
  GoMap.forall_insert (P := fun f (st : ReadStat) => st.fileSize = (content f).length ∧
    st.readPosition = (content f).length) h ⟨rfl, rfl⟩

theorem caughtUp_empty (content : GoString → GoString) : CaughtUp content ∅ :=
  GoMap.forall_empty _

/-- The outcome of a call where every step works. -/
theorem captureSingleAppLog_succeeds {c : CallIn} {content : GoString}
    (hc : Succeeds c.world content) {readStats : ReadStats} {st : ReadStat}
    (hst : readStats.lookup c.filePath = some st) (hsize : st.fileSize ≤ content.length) :
    let r := c.reading content.length st.readPosition (content.drop st.readPosition)
    captureSingleAppLog o readStats c =
      (readStats.insert c.filePath r.readStat, .posted r (r.post o c.endpoint c.world.post)) := by
  have hstart : seekStart st content.length .ok = some st.readPosition := by
    rw [seekStart, if_neg (Nat.not_lt.mpr hsize)]
  simp only [captureSingleAppLog, hc.stat, hc.opens, hst, hc.seek, hstart, hc.creates, hc.copy,
    hc.syncs, Bool.true_eq_false, if_false]

theorem captureSingleAppLog_initializes {c : CallIn} {content : GoString}
    (hc : Succeeds c.world content) {readStats : ReadStats}
    (hst : readStats.lookup c.filePath = none) :
    captureSingleAppLog o readStats c = (readStats.insert c.filePath
      ⟨c.filePath, content.length, content.length⟩, .initialized) := by
  simp only [captureSingleAppLog, hc.stat, hc.opens, hst, Bool.true_eq_false, if_false]

theorem sentBytes_empty {r : Reading} (hr : r.dst = []) (endpoint : GoString) (w : PostWorld) :
    sentBytes (.posted r (r.post o endpoint w)) = [] := by
  rw [sentBytes, Reading.post, hr, postData_empty]
  rfl

theorem sentBytes_accepted (ho : o .onlyCapture = false) {r : Reading} (hr : r.dst ≠ [])
    (endpoint : GoString) {w : PostWorld} (hw : Accepted w) :
    sentBytes (.posted r (r.post o endpoint w)) = r.dst := by
  rw [sentBytes, Reading.post, postData_accepted ho hw endpoint _ _ hr]
  rfl

/-- While the files stay as they are, nothing is sent, every file stays caught up, and the
files that were read are known. -/
theorem trace_caughtUp (content : GoString → GoString) {cs : List CallIn}
    (hcs : ∀ c ∈ cs, Succeeds c.world (content c.filePath)) {readStats : ReadStats}
    (h : CaughtUp content readStats) (sel : CallIn → Bool) :
    sentBy sel (Keyed.trace (captureSingleAppLog o) readStats cs) = [] ∧
      CaughtUp content (Keyed.final (captureSingleAppLog o) readStats cs) ∧
      ∀ f, f ∈ readStats ∨ (∃ c ∈ cs, c.filePath = f) →
        f ∈ Keyed.final (captureSingleAppLog o) readStats cs := by
  induction cs generalizing readStats with
  | nil => exact ⟨rfl, h, fun f hf => hf.elim id fun ⟨c, hc, _⟩ => nomatch hc⟩
  | cons c cs ih =>
    have hc := hcs c List.mem_cons_self
    obtain ⟨hout, hstep⟩ : sentBytes (captureSingleAppLog o readStats c).2 = [] ∧
        (captureSingleAppLog o readStats c).1 = readStats.insert c.filePath
          ⟨c.filePath, (content c.filePath).length, (content c.filePath).length⟩ := by
      cases hst : readStats.lookup c.filePath with
      | none =>
        rw [captureSingleAppLog_initializes hc hst]
        exact ⟨rfl, rfl⟩
      | some st =>
        obtain ⟨hsize, hposition⟩ := h _ _ hst
        have hdst : (content c.filePath).drop st.readPosition = [] := by
          rw [hposition, List.drop_length]
        rw [captureSingleAppLog_succeeds hc hst hsize.le]
        refine ⟨sentBytes_empty hdst _ _, ?_⟩
        rw [Reading.readStat, Reading.offset, hdst, hposition]
        rfl
    obtain ⟨hsent, hcaught, hknown⟩ := ih (fun d hd => hcs d (List.mem_cons_of_mem c hd))
      (hstep ▸ caughtUp_insert h c.filePath)
    refine ⟨?_, hcaught, fun f hf => hknown f ?_⟩
    · rw [Keyed.trace, sentBy, List.filter_cons]
      split
      · rw [List.flatMap_cons, hout]
        exact hsent
      · exact hsent
    · rw [hstep, Finmap.mem_insert]
      rcases hf with hf | ⟨d, hd, rfl⟩
      · exact Or.inl (Or.inr hf)
      · rcases List.mem_cons.mp hd with rfl | hd
        · exact Or.inl (Or.inl rfl)
        · exact Or.inr ⟨d, hd, rfl⟩

theorem sentBy_append (sel : CallIn → Bool) (es fs : List (CallIn × Outcome)) :
    sentBy sel (es ++ fs) = sentBy sel es ++ sentBy sel fs := by
  rw [sentBy, List.filter_append, List.flatMap_append]
  rfl

/-- A call sends what arrived in its file since another call read it. -/
theorem sentBy_ne_nil (ho : o .onlyCapture = false) {pre post : List CallIn} {c : CallIn}
    (hpre : ∀ d ∈ pre, Succeeds d.world []) (hknown : ∃ d ∈ pre, d.filePath = c.filePath)
    {content : GoString} (hc : Succeeds c.world content) (hne : content ≠ [])
    {sel : CallIn → Bool} (hsel : sel c = true) :
    sentBy sel (Keyed.trace (captureSingleAppLog o) ∅ (pre ++ c :: post)) ≠ [] := by
  obtain ⟨-, hcaught, hmem⟩ :=
    trace_caughtUp (o := o) (fun _ => []) hpre (caughtUp_empty _) sel
  obtain ⟨st, hst⟩ := Finmap.mem_iff.mp (hmem c.filePath (Or.inr hknown))
  obtain ⟨hsize, hposition⟩ := hcaught _ _ hst
  have hout := captureSingleAppLog_succeeds (o := o) hc hst (hsize.trans_le (Nat.zero_le _))
  have hsent : sentBytes (captureSingleAppLog o
      (Keyed.final (captureSingleAppLog o) ∅ pre) c).2 = content := by
    rw [hout, hposition]
    exact sentBytes_accepted ho hne _ hc.post
  rw [Keyed.trace_append, sentBy_append, Keyed.trace, sentBy, sentBy,
    List.filter_cons_of_pos (by exact hsel), List.flatMap_cons, hsent]
  intro hnil
  exact hne (List.append_eq_nil_iff.mp (List.append_eq_nil_iff.mp hnil).2).1

def succeeding (content : GoString) : CallWorld :=
  ⟨some content.length, true, .ok, [], true, fun start => some (content.drop start), true,
    ⟨none, none, none, none, none, 200, .ok []⟩⟩

theorem succeeds_succeeding (content : GoString) : Succeeds (succeeding content) content :=
  ⟨rfl, rfl, rfl, rfl, fun _ => rfl, rfl, [], rfl⟩

/-- All files are empty, and `f` gets a byte before visit number `m`. -/
def lateContent (o : Options) (visits : List Visit) (f : GoString) (m i k : Nat) : GoString :=
  if m ≤ i ∧ (visits[i]?).any fun v => ((v.jobs o)[k]?).any fun job => job.1 = .file f v.pid then
    str "x"
  else []

def lateWorlds (o : Options) (visits : List Visit) (f : GoString) (m i k : Nat) : CallWorld :=
  succeeding (lateContent o visits f m i k)

theorem succeeds_lateWorlds {visits : List Visit} {f : GoString} {m : Nat} {v : Visit × Nat}
    (hv : v ∈ visits.zipIdx) {c : CallIn} (hc : c ∈ calls o (lateWorlds o visits f m) v) :
    Succeeds c.world (if m ≤ v.2 ∧ c.filePath = f then str "x" else []) := by
  obtain ⟨v, i⟩ := v
  obtain ⟨path, k, hjob, rfl⟩ := mem_calls_iff.mp hc
  have hvisit : visits[i]? = some v := List.mk_mem_zipIdx_iff_getElem?.mp hv
  have hget : (v.jobs o)[k]? = some (.file path v.pid, k) := by
    rw [Visit.jobs, List.getElem?_zipIdx, List.mk_mem_zipIdx_iff_getElem?.mp hjob]
    simp
  have hcontent : lateContent o visits f m i k =
      if m ≤ i ∧ path = f then str "x" else [] := by
    simp [lateContent, hvisit, hget]
  show Succeeds (succeeding (lateContent o visits f m i k)) _
  rw [hcontent]
  exact succeeds_succeeding _

/-- The first element with a property. -/
theorem exists_first {α : Type} {P : α → Prop} {l : List α} (h : ∃ a ∈ l, P a) :
    ∃ before a after, l = before ++ a :: after ∧ P a ∧ ∀ b ∈ before, ¬ P b := by
  classical
  have hsome : (l.find? fun a => decide (P a)).isSome := by simpa using h
  obtain ⟨a, ha⟩ := Option.isSome_iff_exists.mp hsome
  obtain ⟨hp, before, after, hl, hbefore⟩ := List.find?_eq_some_iff_append.mp ha
  exact ⟨before, a, after, hl, of_decide_eq_true hp, fun b hb => by simpa using hbefore b hb⟩

/-- Of two processes with the same log file, one is visited first for it after the other. -/
theorem exists_late_visit {visits : List Visit} {f : GoString} {v w : Visit} (hv : v ∈ visits)
    (hw : w ∈ visits) (hfv : v.Matches o f) (hfw : w.Matches o f) (hne : v.pid ≠ w.pid) :
    ∃ before u after, visits = before ++ u :: after ∧ u.Matches o f ∧
      (∃ x ∈ before, x.Matches o f) ∧ ∀ x ∈ before, x.pid = u.pid → ¬ x.Matches o f := by
  obtain ⟨before, first, after, rfl, hfirst, hbefore⟩ :=
    exists_first (P := fun y => y.Matches o f) ⟨v, hv, hfv⟩
  obtain ⟨x, hx, hfx, hxpid⟩ :
      ∃ x ∈ before ++ first :: after, x.Matches o f ∧ x.pid ≠ first.pid := by
    by_cases h : v.pid = first.pid
    · exact ⟨w, hw, hfw, fun he => hne (h.trans he.symm)⟩
    · exact ⟨v, hv, hfv, h⟩
  have hafter : x ∈ after := by
    rcases List.mem_append.mp hx with hx | hx
    · exact absurd hfx (hbefore x hx)
    · exact (List.mem_cons.mp hx).resolve_left fun he => hxpid (congrArg Visit.pid he)
  obtain ⟨mid, u, rest, rfl, ⟨hfu, hupid⟩, hmid⟩ :=
    exists_first (P := fun y => y.Matches o f ∧ y.pid = x.pid) ⟨x, hafter, hfx, rfl⟩
  refine ⟨before ++ first :: mid, u, rest, by simp, hfu, ⟨first, by simp, hfirst⟩, ?_⟩
  intro y hy hpid hfy
  rcases List.mem_append.mp hy with hy | hy
  · exact hbefore y hy hfy
  · rcases List.mem_cons.mp hy with rfl | hy
    · exact hxpid (hupid.symm.trans hpid.symm)
    · exact hmid y hy ⟨hfy, hpid.trans hupid⟩

section Late

variable {before after : List Visit} {u : Visit} {f : GoString}

/-- The later visitor is sent the byte that the earlier one made the agent wait for. -/
theorem postedFor_late_ne_nil (ho : o .onlyCapture = false) (hu : u.Matches o f)
    (hbefore : ∃ x ∈ before, x.Matches o f) :
    postedFor u.pid (results o (lateWorlds o (before ++ u :: after) f before.length)
      (before ++ u :: after).zipIdx) ≠ [] := by
  have hzip : (before ++ u :: after).zipIdx =
      before.zipIdx ++ (u, before.length) :: after.zipIdx (before.length + 1) := by
    rw [List.zipIdx_append, List.zipIdx_cons, Nat.zero_add]
  have hworld : ∀ v ∈ (before ++ u :: after).zipIdx,
      ∀ c ∈ calls o (lateWorlds o (before ++ u :: after) f before.length) v,
      Succeeds c.world (if before.length ≤ v.2 ∧ c.filePath = f then str "x" else []) :=
    fun v hv c hc => succeeds_lateWorlds hv hc
  generalize lateWorlds o (before ++ u :: after) f before.length = worlds at hworld ⊢
  rw [hzip] at hworld ⊢
  have hlate := hworld (u, before.length) (by simp)
  -- the calls of the late visit, cut at its first call for `f`
  obtain ⟨early, c, rest, hcalls, hcf, hearly⟩ :=
    exists_first (P := fun c : CallIn => c.filePath = f)
      (exists_call worlds (v := (u, before.length)) hu)
  rw [hcalls] at hlate
  have hc : c ∈ calls o worlds (u, before.length) := by
    rw [hcalls]
    exact List.mem_append_right _ List.mem_cons_self
  have hnew : Succeeds c.world (str "x") := by
    have h := hlate c (List.mem_append_right _ List.mem_cons_self)
    rwa [if_pos ⟨Nat.le_refl _, hcf⟩] at h
  have hold : ∀ d ∈ before.zipIdx.flatMap (calls o worlds) ++ early, Succeeds d.world [] := by
    intro d hd
    rcases List.mem_append.mp hd with hd | hd
    · obtain ⟨v, hv, hdv⟩ := List.mem_flatMap.mp hd
      have hlt : v.2 < before.length := (List.getElem?_eq_some_iff.mp
        (List.mem_zipIdx_iff_getElem?.mp hv)).1
      have h := hworld v (List.mem_append_left _ hv) d hdv
      rwa [if_neg fun hle => absurd hle.1 (Nat.not_le.mpr hlt)] at h
    · have h := hlate d (List.mem_append_left _ hd)
      rwa [if_neg fun hle => hearly d hd hle.2] at h
  have hknown : ∃ d ∈ before.zipIdx.flatMap (calls o worlds) ++ early,
      d.filePath = c.filePath := by
    obtain ⟨x, hx, hfx⟩ := hbefore
    obtain ⟨i, hi⟩ := List.mem_iff_getElem?.mp hx
    obtain ⟨d, hd, hdf⟩ := exists_call (o := o) worlds (v := (x, i)) hfx
    have hvisit : (x, i) ∈ before.zipIdx := List.mk_mem_zipIdx_iff_getElem?.mpr hi
    refine ⟨d, List.mem_append_left _ (List.mem_flatMap.mpr ⟨_, hvisit, hd⟩), ?_⟩
    rw [hdf, hcf]
  have hsplit : (before.zipIdx ++ (u, before.length) :: after.zipIdx (before.length + 1)).flatMap
        (calls o worlds) =
      (before.zipIdx.flatMap (calls o worlds) ++ early) ++
        c :: (rest ++ (after.zipIdx (before.length + 1)).flatMap (calls o worlds)) := by
    simp only [List.flatMap_append, List.flatMap_cons, hcalls, List.append_assoc, List.cons_append]
  rw [postedFor, results_eq_trace, hsplit]
  refine sentBy_ne_nil ho hold hknown hnew (by decide) ?_
  exact decide_eq_true (pid_of_mem_calls hc).1

/-- Alone, the later visitor skips the byte as old. -/
theorem postedFor_late_solo (hbefore : ∀ x ∈ before, x.pid = u.pid → ¬ x.Matches o f) :
    postedFor u.pid (results o (lateWorlds o (before ++ u :: after) f before.length)
      (solo u.pid (before ++ u :: after).zipIdx)) = [] := by
  rw [postedFor, results_eq_trace]
  refine (trace_caughtUp (fun g => if g = f then str "x" else []) ?_ (caughtUp_empty _) _).1
  · intro c hc
    obtain ⟨v, hv, hcv⟩ := List.mem_flatMap.mp hc
    obtain ⟨hv, hpid⟩ := List.mem_filter.mp hv
    have h := succeeds_lateWorlds hv hcv
    by_cases hf : c.filePath = f
    · have hle : before.length ≤ v.2 := by
        by_contra hlt
        have hget := List.mem_zipIdx_iff_getElem?.mp hv
        rw [List.getElem?_append_left (Nat.lt_of_not_le hlt)] at hget
        refine hbefore v.1 (List.mem_of_getElem? hget) (of_decide_eq_true hpid) ?_
        exact hf ▸ (pid_of_mem_calls hcv).2
      rw [if_pos ⟨hle, hf⟩] at h
      rwa [if_pos hf]
    · rw [if_neg fun hle => hf hle.2] at h
      rwa [if_neg hf]

end Late

/-- The processes of a run do not interfere in the capture of their logs, whatever the logs
hold and however the calls end, exactly when no two of them have a log file in common, or
nothing is posted at all. -/
theorem nonInterference_iff (o : Options) (cycles : List (List Visit)) :
    (∀ worlds, NonInterference o cycles worlds ∧ DeliversToBoth o cycles worlds) ↔
      o .onlyCapture = true ∨ ∀ f p q, Matched o cycles p f → Matched o cycles q f → p = q := by
  constructor
  · intro hall
    by_cases ho : o .onlyCapture = true
    · exact Or.inl ho
    · right
      rintro f p q ⟨v, hv, rfl, hfv⟩ ⟨w, hw, rfl, hfw⟩
      by_contra hne
      obtain ⟨before, u, after, hflat, hfu, hbefore, hfirst⟩ :=
        exists_late_visit hv hw hfv hfw hne
      have hfull := (hall (lateWorlds o cycles.flatten f before.length)).1 u.pid
      rw [timeline, hflat, postedFor_late_solo hfirst] at hfull
      exact postedFor_late_ne_nil (Bool.eq_false_iff.mpr ho) hfu hbefore hfull
  · intro hcond worlds
    rcases hcond with ho | hdisjoint
    · constructor
      · intro p
        rw [postedFor, postedFor, results_eq_trace, results_eq_trace, sentBy_onlyCapture ho,
          sentBy_onlyCapture ho]
      · intro f p q _ _ _ content hoff
        exact Bool.noConfusion (ho.symm.trans hoff)
    · constructor
      · intro p
        refine sentBy_pid fun v hv w hw f hp hfv hfw => ?_
        exact (hdisjoint f p w.1.pid ⟨v.1, timeline_mem hv, hp, hfv⟩
          ⟨w.1, timeline_mem hw, rfl, hfw⟩).symm
      · intro f p q hne hp hq
        exact absurd (hdisjoint f p q hp hq) hne

/-- Two processes with one log file, which gets a byte between two cycles. -/
def sharedOptions : Options := Function.update defaultOptions .appLogs [str "a.log"]

def sharedVisit (pid : Int) : Visit :=
  ⟨pid, [], [], [], none, fun _ => none, fun pattern => some [pattern]⟩

def sharedCycles : List (List Visit) :=
  [[sharedVisit 1, sharedVisit 2], [sharedVisit 1, sharedVisit 2]]

def sharedWorlds (i _ : Nat) : CallWorld := succeeding (if i < 2 then [] else str "x")

/-- Process 2 is not sent the byte that it would be sent if it were alone. -/
theorem processes_interfere : ¬ NonInterference sharedOptions sharedCycles sharedWorlds := by
  intro h
  have hfull : postedFor 2 (results sharedOptions sharedWorlds (timeline sharedCycles)) = [] := rfl
  have hsolo : postedFor 2 (results sharedOptions sharedWorlds (solo 2 (timeline sharedCycles))) =
      str "x" := rfl
  exact absurd ((hfull.symm.trans (h 2)).trans hsolo) (by decide)

end YcAgent.M3
