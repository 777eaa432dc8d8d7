import YcAgent.Capture.GoCapture

/-!
# The order of tasks that wait for each other

`GoCapture` takes the tasks that a task waits for. A wait returns at once where the `Cmd` of
the other task is nil, which it is until that task runs; where it is set, the wait group
has been counted up, and the wait lasts to the end of the other task.
-/
namespace YcAgent.Capture

open Go Transition

section Machine

variable {ι : Type*} [DecidableEq ι]

/-- A task only begins its run when those it waits for that were started before it have
finished theirs. -/
def Ordered (s : State ι) : Prop :=
  ∀ i, 4 ≤ (s.task i).phase.rank → ∀ w ∈ (s.task i).earlier, 5 ≤ (s.task w).phase.rank

/-- The next task that goroutine `i` waits for, if it was started before, has its `Cmd` set or
its run finished. -/
def HeedsNext (s : State ι) (i : ι) : Phase ι → Prop
  | .waiting (w :: _) =>
    w ∈ (s.task i).earlier → (s.task w).cmd = true ∨ 5 ≤ (s.task w).phase.rank
  | _ => True

/-- What a wait has to find for its task to come in order. -/
def Heeded (s : State ι) : Action ι → Prop
  | .task i .waitWaitGroup => HeedsNext s i (s.task i).phase
  | _ => True

instance (s : State ι) (i : ι) : (phase : Phase ι) → Decidable (HeedsNext s i phase)
  | .waiting (_ :: _) => inferInstanceAs (Decidable (_ → _))
  | .waiting [] | .absent | .blocked _ _ | .endpointSet | .initialized | .running | .finished _
    | .sent | .closed | .done => .isTrue trivial

instance (s : State ι) : (a : Action ι) → Decidable (Heeded s a)
  | .task i .waitWaitGroup => inferInstanceAs (Decidable (HeedsNext s i _))
  | .task _ .waitReturns | .task _ .setEndpoint | .task _ .initWaitGroup | .task _ .beginRun
    | .task _ .setCmd | .task _ (.endRun _ _) | .task _ .close | .task _ .doneWaitGroup
    | .collector | .deliver => .isTrue trivial

/-- Of the tasks that a task waits for, those started before it are finished or still to be
waited for, and a goroutine is only blocked by a task with a `Cmd`. -/
structure OrderInv (s : State ι) : Prop where
  ok : ∀ i, (s.task i).Ok
  earlier : ∀ i, ∀ w ∈ (s.task i).earlier,
    w ∈ (s.task i).phase.waitsFor ∨ 5 ≤ (s.task w).phase.rank
  blocked : ∀ i w ws, (s.task i).phase = .blocked w ws → (s.task w).cmd = true

omit [DecidableEq ι] in
theorem orderInv_init (program : List (Instr ι)) : OrderInv (init program) where
  ok _ := TaskState.ok_absent
  earlier _ _ hw := by cases hw
  blocked _ _ _ h := by cases h

/-- Replacing one task by one that is at least as far. -/
theorem OrderInv.update {s : State ι} (hinv : OrderInv s) {program : List (Instr ι)} {i : ι}
    {t : TaskState ι} (hok : t.Ok) (hrank : (s.task i).phase.rank ≤ t.phase.rank)
    (hcmd : (s.task i).cmd = true → t.cmd = true)
    (hearlier : ∀ w ∈ t.earlier, w ∈ t.phase.waitsFor ∨ 5 ≤ (s.task w).phase.rank)
    (hblocked : ∀ w ws, t.phase = .blocked w ws → (s.task w).cmd = true) :
    OrderInv (s.update program i t) := by
  have hmono : ∀ w, (s.task w).phase.rank ≤ ((s.update program i t).task w).phase.rank ∧
      ((s.task w).cmd = true → ((s.update program i t).task w).cmd = true) := by
    intro w
    by_cases hw : w = i
    · subst hw
      rw [update_task_self]
      exact ⟨hrank, hcmd⟩
    · rw [update_task_of_ne _ _ hw]
      exact ⟨Nat.le_refl _, id⟩
  constructor
  · intro j
    by_cases hj : j = i
    · subst hj
      rw [update_task_self]
      exact hok
    · rw [update_task_of_ne _ _ hj]
      exact hinv.ok j
  · intro j w hw
    have hfar : 5 ≤ (s.task w).phase.rank → 5 ≤ ((s.update program i t).task w).phase.rank :=
      fun h => h.trans (hmono w).1
    by_cases hj : j = i
    · subst hj
      rw [update_task_self] at hw ⊢
      exact (hearlier w hw).imp_right hfar
    · rw [update_task_of_ne _ _ hj] at hw ⊢
      exact (hinv.earlier j w hw).imp_right hfar
  · intro j w ws hphase
    refine (hmono w).2 ?_
    by_cases hj : j = i
    · subst hj
      rw [update_task_self] at hphase
      exact hblocked w ws hphase
    · rw [update_task_of_ne _ _ hj] at hphase
      exact hinv.blocked j w ws hphase

omit [DecidableEq ι] in
/-- A blocked goroutine is released by a task that is done. -/
theorem done_of_wg {t : TaskState ι} (hok : t.Ok) (hcmd : t.cmd = true) (hwg : t.wg = 0) :
    5 ≤ t.phase.rank := by
  have hrank := hok.cmd hcmd
  have hcount := hok.wg
  rw [hwg] at hcount
  split at hcount
  · cases hcount
  · omega

omit [DecidableEq ι] in
/-- Only a wait finds a goroutine with a task to wait for. -/
theorem action_of_waiting {task : ι → TaskState ι} {t u : TaskState ι} {a : TaskAction} {w : ι}
    {ws : List ι} (h : t.step task a = some u) (hphase : t.phase = .waiting (w :: ws)) :
    a = .waitWaitGroup := by
  cases a with
  | waitWaitGroup => rfl
  | waitReturns | setEndpoint | initWaitGroup | beginRun | setCmd | endRun r e | close
    | doneWaitGroup =>
    simp only [TaskState.step, hphase] at h
    cases h

/-- A step of a goroutine keeps the order, where its wait is heeded. -/
theorem OrderInv.move {s : State ι} (hinv : OrderInv s) {i : ι} {a : TaskAction}
    {u : TaskState ι} (hu : (s.task i).step s.task a = some u) (hheeded : Heeded s (.task i a)) :
    OrderInv (s.update s.program i u) := by
  have hmoves := TaskState.moves_of_step hu
  have hok := (hinv.ok i).move hmoves
  have hearlier := hinv.earlier i
  cases hmoves with
  | skip w ws hphase hcmd =>
    obtain rfl := action_of_waiting hu hphase
    simp only [Heeded, hphase, HeedsNext] at hheeded
    refine hinv.update hok (by rw [hphase]; exact Nat.le_refl _) id (fun v hv => ?_)
      (fun v vs h => by cases h)
    rcases hearlier v hv with hwait | hdone
    · rw [hphase] at hwait
      rcases List.mem_cons.mp hwait with rfl | hwait
      · rcases hheeded hv with htrue | hdone
        · rw [hcmd] at htrue
          cases htrue
        · exact Or.inr hdone
      · exact Or.inl hwait
    · exact Or.inr hdone
  | block w ws hphase hcmd =>
    refine hinv.update hok (by rw [hphase]; exact Nat.le_refl _) id (fun v hv => ?_) ?_
    · rw [hphase] at hearlier
      exact hearlier v hv
    · intro v vs h
      cases h
      exact hcmd
  | release w ws hphase hwg =>
    refine hinv.update hok (by rw [hphase]; exact Nat.le_refl _) id (fun v hv => ?_)
      (fun v vs h => by cases h)
    rcases hearlier v hv with hwait | hdone
    · rw [hphase] at hwait
      rcases List.mem_cons.mp hwait with rfl | hwait
      · exact Or.inr (done_of_wg (hinv.ok v) (hinv.blocked i v ws hphase) hwg)
      · exact Or.inl hwait
    · exact Or.inr hdone
  | setCmd hphase =>
    refine hinv.update hok (Nat.le_refl _) (fun _ => rfl) hearlier ?_
    intro v vs h
    exact hinv.blocked i v vs h
  | setEndpoint hphase | initWaitGroup hphase | beginRun hphase | endRun r hphase | close hphase
    | doneWaitGroup hphase =>
    refine hinv.update hok ?_ id (fun v hv => ?_) (fun v vs h => by cases h)
    · rw [hphase]
      simp only [Phase.rank]
      omega
    · have hdone := hearlier v hv
      rw [hphase] at hdone
      exact Or.inr (hdone.resolve_left List.not_mem_nil)

theorem orderInv_step {s t : State ι} {a : Action ι} (hinv : OrderInv s)
    (h : step s a = some t) (hheeded : Heeded s a) : OrderInv t := by
  cases State.moves_of_step h with
  | start i wait program hprogram hrank =>
    have hcmd : (s.task i).cmd = true → False := fun hcmd => by
      have hrun := (hinv.ok i).cmd hcmd
      omega
    refine hinv.update (TaskState.ok_started wait _) (by omega) (fun h => (hcmd h).elim)
      (fun w hw => ?_) (fun w ws h => by cases h)
    exact Or.inl (List.mem_of_mem_filter hw)
  | work program hprogram => exact ⟨hinv.ok, hinv.earlier, hinv.blocked⟩
  | deliver i program result hprogram hphase =>
    have hearlier := hinv.earlier i
    rw [hphase] at hearlier
    refine hinv.update ((hinv.ok i).deliver hphase) ?_ id (fun w hw => ?_)
      (fun w ws h => by cases h)
    · rw [hphase]
      simp only [Phase.rank]
      omega
    · exact Or.inr ((hearlier w hw).resolve_left List.not_mem_nil)
  | task i b u hu => exact hinv.move hu hheeded

omit [DecidableEq ι] in
theorem OrderInv.ordered {s : State ι} (hinv : OrderInv s) : Ordered s := by
  intro i hbegun w hw
  refine (hinv.earlier i w hw).resolve_left fun hwait => ?_
  cases hphase : (s.task i).phase with
  | absent | waiting ws | blocked w' ws =>
    rw [hphase] at hbegun
    simp only [Phase.rank] at hbegun
    omega
  | endpointSet | initialized | running | finished r | sent | closed | done =>
    rw [hphase] at hwait
    cases hwait

/-- Where every wait for a task that was started before finds its `Cmd` set or its run
finished, the tasks run in the order in which they wait for each other. -/
theorem throughout_ordered (program : List (Instr ι)) (as : List (Action ι))
    (h : Along step (fun s a _ => Heeded s a) (init program) as) :
    Throughout step Ordered (init program) as :=
  throughout_of_along (fun _ _ _ hinv hstep hheeded => orderInv_step hinv hstep hheeded)
    (fun _ hinv => hinv.ordered) (orderInv_init program) h

end Machine

end YcAgent.Capture
