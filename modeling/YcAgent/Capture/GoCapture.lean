import Mathlib.Logic.Function.Basic
import YcAgent.Base.Run
import YcAgent.Capture.AppLog

/-!
# Tasks in goroutines and their collector

`GoCapture` starts a goroutine that first waits for the wait groups of other tasks and then
calls the function that `WrapRun` made of its own task: set the endpoint, add one to the
wait group, run, send the result on a channel without a buffer, close the channel, and
count the wait group down. The collector starts the tasks and receives their results in an
order of its own.

A wait is skipped while the `Cmd` of the task it is for is nil, and the wait group of a
task is only counted up in its own goroutine. So a wait may be over before the task begins.
-/
namespace YcAgent.Capture

open Go Transition

/-- What the collector does next. `work` is anything that touches no channel. -/
inductive Instr (ι : Type*) where
  | start (i : ι) (wait : List ι)
  | recv (i : ι)
  | work
  deriving DecidableEq

/-- How far the goroutine of a task is. In `blocked` it is inside the wait for a task. -/
inductive Phase (ι : Type*) where
  | absent
  | waiting (wait : List ι)
  | blocked (w : ι) (wait : List ι)
  | endpointSet
  | initialized
  | running
  | finished (result : Result)
  | sent
  | closed
  | done

/-- The phases in their order. -/
def Phase.rank {ι : Type*} : Phase ι → Nat
  | .absent => 0
  | .waiting _ => 1
  | .blocked _ _ => 1
  | .endpointSet => 2
  | .initialized => 3
  | .running => 4
  | .finished _ => 5
  | .sent => 6
  | .closed => 7
  | .done => 8

/-- A task that `GoCapture` was called with. `earlier` are those of the tasks it waits for
that were started before it. -/
structure TaskState (ι : Type*) where
  phase : Phase ι
  cmd : Bool
  wg : Int
  delivered : List Result
  earlier : List ι

def TaskState.absent {ι : Type*} : TaskState ι := ⟨.absent, false, 0, [], []⟩

/-- A step of the goroutine of a task. -/
inductive TaskAction where
  | waitWaitGroup
  | waitReturns
  | setEndpoint
  | initWaitGroup
  | beginRun
  | setCmd
  | endRun (result : Result) (err : Option GoString)
  | close
  | doneWaitGroup

/-- The result that `WrapRun` sends. -/
def wrapResult (result : Result) (err : Option GoString) : Result :=
  match err with
  | none => result
  | some e => { result with msg := str "capture failed: " ++ e }

section Machine

variable {ι : Type*}

/-- A step of a goroutine; it reads the `Cmd` and the wait group of the task it waits for. -/
def TaskState.step (task : ι → TaskState ι) (t : TaskState ι) :
    TaskAction → Option (TaskState ι)
  | .waitWaitGroup =>
    match t.phase with
    | .waiting (w :: ws) =>
      if (task w).cmd then some { t with phase := .blocked w ws }
      else some { t with phase := .waiting ws }
    | _ => none
  | .waitReturns =>
    match t.phase with
    | .blocked w ws => if (task w).wg = 0 then some { t with phase := .waiting ws } else none
    | _ => none
  | .setEndpoint =>
    match t.phase with
    | .waiting [] => some { t with phase := .endpointSet }
    | _ => none
  | .initWaitGroup =>
    match t.phase with
    | .endpointSet => some { t with phase := .initialized, wg := t.wg + 1 }
    | _ => none
  | .beginRun =>
    match t.phase with
    | .initialized => some { t with phase := .running }
    | _ => none
  | .setCmd =>
    match t.phase with
    | .running => some { t with cmd := true }
    | _ => none
  | .endRun result err =>
    match t.phase with
    | .running => some { t with phase := .finished (wrapResult result err) }
    | _ => none
  | .close =>
    match t.phase with
    | .sent => some { t with phase := .closed }
    | _ => none
  | .doneWaitGroup =>
    match t.phase with
    | .closed => some { t with phase := .done, wg := t.wg - 1 }
    | _ => none

structure State (ι : Type*) where
  program : List (Instr ι)
  task : ι → TaskState ι

inductive Action (ι : Type*) where
  | collector
  | deliver
  | task (i : ι) (a : TaskAction)

def init (program : List (Instr ι)) : State ι := ⟨program, fun _ => .absent⟩

def Started (t : TaskState ι) : Prop := 1 ≤ t.phase.rank

instance (t : TaskState ι) : Decidable (Started t) := inferInstanceAs (Decidable (_ ≤ _))

variable [DecidableEq ι]

/-- The state with one task changed, and the rest of the program. -/
def State.update (s : State ι) (program : List (Instr ι)) (i : ι) (t : TaskState ι) : State ι :=
  ⟨program, Function.update s.task i t⟩

@[simp] theorem update_task_self (s : State ι) (program : List (Instr ι)) (i : ι)
    (t : TaskState ι) : (s.update program i t).task i = t :=
  Function.update_self ..

theorem update_task_of_ne (s : State ι) (program : List (Instr ι)) {i j : ι} (h : j ≠ i)
    (t : TaskState ι) : (s.update program i t).task j = s.task j :=
  Function.update_of_ne h ..

/-- A step of the system. In `deliver` the collector and a goroutine meet on a channel. -/
def step (s : State ι) : Action ι → Option (State ι)
  | .collector =>
    match s.program with
    | .start i wait :: program =>
      if (s.task i).phase.rank = 0 then
        let earlier := wait.filter fun w => Started (s.task w)
        some (s.update program i ⟨.waiting wait, false, 0, [], earlier⟩)
      else none
    | .work :: program => some ⟨program, s.task⟩
    | _ => none
  | .deliver =>
    match s.program with
    | .recv i :: program =>
      match (s.task i).phase with
      | .finished result =>
        let t := s.task i
        some (s.update program i
          { t with phase := .sent, delivered := t.delivered ++ [result] })
      | _ => none
    | _ => none
  | .task i a =>
    ((s.task i).step s.task a).map fun t => s.update s.program i t

/-- What a step does to the system: one case for each instruction of the collector, one for
the meeting on a channel, one for all steps of goroutines. -/
inductive State.Moves (s : State ι) : Action ι → State ι → Prop
  | start (i : ι) (wait : List ι) (program : List (Instr ι))
      (hprogram : s.program = .start i wait :: program) (hrank : (s.task i).phase.rank = 0) :
      Moves s .collector (s.update program i
        ⟨.waiting wait, false, 0, [], wait.filter fun w => Started (s.task w)⟩)
  | work (program : List (Instr ι)) (hprogram : s.program = .work :: program) :
      Moves s .collector ⟨program, s.task⟩
  | deliver (i : ι) (program : List (Instr ι)) (result : Result)
      (hprogram : s.program = .recv i :: program) (hphase : (s.task i).phase = .finished result) :
      Moves s .deliver (s.update program i
        { s.task i with phase := .sent, delivered := (s.task i).delivered ++ [result] })
  | task (i : ι) (a : TaskAction) (u : TaskState ι) (hu : (s.task i).step s.task a = some u) :
      Moves s (.task i a) (s.update s.program i u)

theorem State.moves_of_step {s t : State ι} {a : Action ι} (h : step s a = some t) :
    s.Moves a t := by
  cases a with
  | collector =>
    simp only [step] at h
    split at h
    · rename_i i wait program hprogram
      split at h
      · rename_i hrank
        cases h
        exact .start i wait program hprogram hrank
      · cases h
    · rename_i program hprogram
      cases h
      exact .work program hprogram
    · cases h
  | deliver =>
    simp only [step] at h
    split at h
    · rename_i i program hprogram
      split at h
      · rename_i result hphase
        cases h
        exact .deliver i program result hprogram hphase
      · cases h
    · cases h
  | task i a =>
    obtain ⟨u, hu, rfl⟩ := Option.map_eq_some_iff.mp h
    exact .task i a u hu

/-- The program is at its end, and so is every goroutine. -/
def State.Final (s : State ι) : Prop :=
  s.program = [] ∧ ∀ i, (s.task i).phase = .absent ∨ (s.task i).phase = .done

/-- What holds of a task by itself: its wait group counts one from its initialization on,
its `Cmd` is set while it runs, and its result is delivered once. -/
structure TaskState.Ok (t : TaskState ι) : Prop where
  wg : t.wg = if 3 ≤ t.phase.rank ∧ t.phase.rank ≤ 7 then 1 else 0
  cmd : t.cmd = true → 4 ≤ t.phase.rank
  delivered : t.delivered.length = if 6 ≤ t.phase.rank then 1 else 0

omit [DecidableEq ι] in
theorem TaskState.ok_absent : (TaskState.absent : TaskState ι).Ok :=
  ⟨rfl, (fun h => by cases h), rfl⟩

omit [DecidableEq ι] in
theorem TaskState.ok_started (wait earlier : List ι) :
    (TaskState.mk (.waiting wait) false 0 [] earlier).Ok :=
  ⟨rfl, (fun h => by cases h), rfl⟩

omit [DecidableEq ι] in
theorem TaskState.Ok.deliver {t : TaskState ι} (ht : t.Ok) {result : Result}
    (hphase : t.phase = .finished result) :
    TaskState.Ok { t with phase := .sent, delivered := t.delivered ++ [result] } := by
  obtain ⟨hwg, hcmd, hdelivered⟩ := ht
  rw [hphase] at hwg hcmd hdelivered
  refine ⟨hwg, fun h => ?_, ?_⟩
  · have hrun := hcmd h
    simp only [Phase.rank] at hrun ⊢
    omega
  · rw [List.length_append, hdelivered]
    rfl

/-- What a step of a goroutine does to its task. -/
inductive TaskState.Moves (task : ι → TaskState ι) (t : TaskState ι) : TaskState ι → Prop
  | skip (w : ι) (ws : List ι) (hphase : t.phase = .waiting (w :: ws))
      (hcmd : (task w).cmd = false) : Moves task t { t with phase := .waiting ws }
  | block (w : ι) (ws : List ι) (hphase : t.phase = .waiting (w :: ws))
      (hcmd : (task w).cmd = true) : Moves task t { t with phase := .blocked w ws }
  | release (w : ι) (ws : List ι) (hphase : t.phase = .blocked w ws)
      (hwg : (task w).wg = 0) : Moves task t { t with phase := .waiting ws }
  | setEndpoint (hphase : t.phase = .waiting []) : Moves task t { t with phase := .endpointSet }
  | initWaitGroup (hphase : t.phase = .endpointSet) :
      Moves task t { t with phase := .initialized, wg := t.wg + 1 }
  | beginRun (hphase : t.phase = .initialized) : Moves task t { t with phase := .running }
  | setCmd (hphase : t.phase = .running) : Moves task t { t with cmd := true }
  | endRun (result : Result) (hphase : t.phase = .running) :
      Moves task t { t with phase := .finished result }
  | close (hphase : t.phase = .sent) : Moves task t { t with phase := .closed }
  | doneWaitGroup (hphase : t.phase = .closed) :
      Moves task t { t with phase := .done, wg := t.wg - 1 }

omit [DecidableEq ι] in
theorem TaskState.moves_of_step {task : ι → TaskState ι} {t u : TaskState ι} {a : TaskAction}
    (h : t.step task a = some u) : t.Moves task u := by
  cases a with
  | waitWaitGroup =>
    simp only [step] at h
    split at h
    · rename_i w ws hphase
      split at h
      · rename_i hcmd
        cases h
        exact .block w ws hphase hcmd
      · rename_i hcmd
        cases h
        exact .skip w ws hphase (Bool.eq_false_iff.mpr hcmd)
    · cases h
  | waitReturns =>
    simp only [step] at h
    split at h
    · rename_i w ws hphase
      split at h
      · rename_i hwg
        cases h
        exact .release w ws hphase hwg
      · cases h
    · cases h
  | setEndpoint =>
    simp only [step] at h
    split at h
    · rename_i hphase
      cases h
      exact .setEndpoint hphase
    · cases h
  | initWaitGroup =>
    simp only [step] at h
    split at h
    · rename_i hphase
      cases h
      exact .initWaitGroup hphase
    · cases h
  | beginRun =>
    simp only [step] at h
    split at h
    · rename_i hphase
      cases h
      exact .beginRun hphase
    · cases h
  | setCmd =>
    simp only [step] at h
    split at h
    · rename_i hphase
      cases h
      exact .setCmd hphase
    · cases h
  | endRun result err =>
    simp only [step] at h
    split at h
    · rename_i hphase
      cases h
      exact .endRun _ hphase
    · cases h
  | close =>
    simp only [step] at h
    split at h
    · rename_i hphase
      cases h
      exact .close hphase
    · cases h
  | doneWaitGroup =>
    simp only [step] at h
    split at h
    · rename_i hphase
      cases h
      exact .doneWaitGroup hphase
    · cases h

omit [DecidableEq ι] in
theorem TaskState.Ok.move {task : ι → TaskState ι} {t u : TaskState ι} (ht : t.Ok)
    (h : t.Moves task u) : u.Ok := by
  obtain ⟨hwg, hcmd, hdelivered⟩ := ht
  cases h with
  | skip w ws hphase _ | block w ws hphase _ | release w ws hphase _ | setEndpoint hphase
    | initWaitGroup hphase | beginRun hphase | endRun r hphase | close hphase
    | doneWaitGroup hphase =>
    rw [hphase] at hwg hcmd hdelivered
    simp only [Phase.rank] at hwg hcmd hdelivered
    constructor
    · simp only [Phase.rank]
      omega
    · intro h
      have hrank := hcmd h
      simp only [Phase.rank]
      omega
    · exact hdelivered
  | setCmd hphase =>
    refine ⟨hwg, fun _ => ?_, hdelivered⟩
    rw [hphase]
    exact Nat.le_refl _

/-- The tasks a goroutine has still to wait for. -/
def Phase.waitsFor {ι : Type*} : Phase ι → List ι
  | .waiting ws => ws
  | .blocked w ws => w :: ws
  | _ => []

omit [DecidableEq ι] in
/-- A goroutine was started before its step, and the step is not the delivery. -/
theorem TaskState.Moves.rank {task : ι → TaskState ι} {t u : TaskState ι}
    (h : t.Moves task u) :
    1 ≤ t.phase.rank ∧ 1 ≤ u.phase.rank ∧ (6 ≤ t.phase.rank ↔ 6 ≤ u.phase.rank) := by
  cases h with
  | setCmd hphase =>
    rw [hphase]
    simp only [Phase.rank]
    decide
  | skip w ws hphase _ | block w ws hphase _ | release w ws hphase _ | setEndpoint hphase
    | initWaitGroup hphase | beginRun hphase | endRun r hphase | close hphase
    | doneWaitGroup hphase =>
    rw [hphase]
    simp only [Phase.rank]
    decide

omit [DecidableEq ι] in
theorem TaskState.Moves.waitsFor {task : ι → TaskState ι} {t u : TaskState ι}
    (h : t.Moves task u) : ∀ w ∈ u.phase.waitsFor, w ∈ t.phase.waitsFor := by
  intro w hw
  cases h with
  | skip w' ws hphase _ | release w' ws hphase _ =>
    rw [hphase]
    exact List.mem_cons_of_mem w' hw
  | block w' ws hphase _ =>
    rw [hphase]
    exact hw
  | setCmd hphase => exact hw
  | setEndpoint hphase | initWaitGroup hphase | beginRun hphase | endRun r hphase | close hphase
    | doneWaitGroup hphase => cases hw

/-- A collector that starts every task once and receives its result once, after those of the
tasks that it waits for. -/
def WellFormed : List (ι × List ι) → List ι → List (Instr ι) → Prop
  | started, received, [] => ∀ p ∈ started, p.1 ∈ received
  | started, received, .start i wait :: program =>
    i ∉ started.map Prod.fst ∧ WellFormed ((i, wait) :: started) received program
  | started, received, .recv i :: program =>
    (∃ p ∈ started, p.1 = i ∧ ∀ w ∈ p.2, w ∈ received) ∧ i ∉ received ∧
      WellFormed started (i :: received) program
  | started, received, .work :: program => WellFormed started received program

instance decidableWellFormed : (started : List (ι × List ι)) → (received : List ι) →
    (program : List (Instr ι)) → Decidable (WellFormed started received program)
  | started, received, [] => inferInstanceAs (Decidable (∀ p ∈ started, p.1 ∈ received))
  | started, received, .start i wait :: program =>
    have := decidableWellFormed ((i, wait) :: started) received program
    inferInstanceAs (Decidable (_ ∧ _))
  | started, received, .recv i :: program =>
    have := decidableWellFormed started (i :: received) program
    inferInstanceAs (Decidable (_ ∧ _ ∧ _))
  | started, received, .work :: program => decidableWellFormed started received program

/-- What the rest of the program and the goroutines have to do with each other. -/
structure Inv (started : List (ι × List ι)) (received : List ι) (s : State ι) : Prop where
  program : WellFormed started received s.program
  isStarted : ∀ i, 1 ≤ (s.task i).phase.rank ↔ i ∈ started.map Prod.fst
  isReceived : ∀ i, 6 ≤ (s.task i).phase.rank ↔ i ∈ received
  waitsFor : ∀ p ∈ started, ∀ w ∈ (s.task p.1).phase.waitsFor, w ∈ p.2
  ok : ∀ i, (s.task i).Ok

omit [DecidableEq ι] in
theorem inv_init {program : List (Instr ι)} (h : WellFormed [] [] program) :
    Inv [] [] (init program) where
  program := h
  isStarted i := by simp [init, TaskState.absent, Phase.rank]
  isReceived i := by simp [init, TaskState.absent, Phase.rank]
  waitsFor p hp := by cases hp
  ok _ := TaskState.ok_absent

/-- A change of one task, with the rest of the program that goes with it. -/
theorem Inv.update {started started' : List (ι × List ι)} {received received' : List ι}
    {s : State ι} (hinv : Inv started received s) {program : List (Instr ι)} {i : ι}
    {t : TaskState ι} (hprogram : WellFormed started' received' program)
    (hstarted : ∀ j, j ∈ started'.map Prod.fst ↔ j ∈ started.map Prod.fst ∨ j = i)
    (hreceived : ∀ j, j ≠ i → (j ∈ received' ↔ j ∈ received))
    (hrank : 1 ≤ t.phase.rank) (hsent : 6 ≤ t.phase.rank ↔ i ∈ received') (hok : t.Ok)
    (hwaits : ∀ p ∈ started', (p.1 ≠ i → p ∈ started) ∧
      (p.1 = i → ∀ w ∈ t.phase.waitsFor, w ∈ p.2)) :
    Inv started' received' (s.update program i t) where
  program := hprogram
  isStarted j := by
    by_cases hj : j = i
    · subst hj
      rw [update_task_self, hstarted]
      exact iff_of_true hrank (Or.inr rfl)
    · rw [update_task_of_ne _ _ hj, hstarted, hinv.isStarted j]
      exact (or_iff_left hj).symm
  isReceived j := by
    by_cases hj : j = i
    · subst hj
      rw [update_task_self]
      exact hsent
    · rw [update_task_of_ne _ _ hj, hinv.isReceived j]
      exact (hreceived j hj).symm
  waitsFor p hp := by
    intro w hw
    by_cases hj : p.1 = i
    · rw [hj, update_task_self] at hw
      exact (hwaits p hp).2 hj w hw
    · rw [update_task_of_ne _ _ hj] at hw
      exact hinv.waitsFor p ((hwaits p hp).1 hj) w hw
  ok j := by
    by_cases hj : j = i
    · subst hj
      rw [update_task_self]
      exact hok
    · rw [update_task_of_ne _ _ hj]
      exact hinv.ok j

/-- A task is started that was not before. -/
theorem Inv.start {started : List (ι × List ι)} {received : List ι} {s : State ι}
    (hinv : Inv started received s) {i : ι} {wait : List ι} {program : List (Instr ι)}
    (hprogram : s.program = .start i wait :: program) (hrank : (s.task i).phase.rank = 0)
    (earlier : List ι) :
    Inv ((i, wait) :: started) received
      (s.update program i ⟨.waiting wait, false, 0, [], earlier⟩) := by
  have hwf := hinv.program
  rw [hprogram] at hwf
  obtain ⟨hnew, hwf⟩ := hwf
  have hnotReceived : i ∉ received := fun hi => by
    have hsent := (hinv.isReceived i).mpr hi
    omega
  refine hinv.update hwf ?_ (fun _ _ => Iff.rfl) (Nat.le_refl 1) ?_
    (TaskState.ok_started wait earlier) ?_
  · intro j
    rw [List.map_cons, List.mem_cons]
    exact or_comm
  · exact iff_of_false (show ¬ 6 ≤ 1 by decide) hnotReceived
  · intro p hp
    rcases List.mem_cons.mp hp with rfl | hp
    · exact ⟨fun hne => absurd rfl hne, fun _ w hw => hw⟩
    · exact ⟨fun _ => hp, fun heq => absurd (List.mem_map_of_mem hp) (heq ▸ hnew)⟩

/-- The result of a task is received that was not before. -/
theorem Inv.deliver {started : List (ι × List ι)} {received : List ι} {s : State ι}
    (hinv : Inv started received s) {i : ι} {program : List (Instr ι)} {result : Result}
    (hprogram : s.program = .recv i :: program) (hphase : (s.task i).phase = .finished result) :
    Inv started (i :: received) (s.update program i
      { s.task i with phase := .sent, delivered := (s.task i).delivered ++ [result] }) := by
  have hwf := hinv.program
  rw [hprogram] at hwf
  obtain ⟨hstarted, -, hwf⟩ := hwf
  refine hinv.update hwf ?_ ?_ (show 1 ≤ 6 by decide) ?_ ((hinv.ok i).deliver hphase) ?_
  · intro j
    refine (or_iff_left_of_imp fun hj => ?_).symm
    obtain ⟨p, hp, hpi, _⟩ := hstarted
    exact hj ▸ hpi ▸ List.mem_map_of_mem hp
  · intro j hj
    rw [List.mem_cons]
    exact or_iff_right hj
  · exact iff_of_true (show 6 ≤ 6 by decide) List.mem_cons_self
  · exact fun p hp => ⟨fun _ => hp, fun _ w hw => by cases hw⟩

/-- A goroutine goes on by itself. -/
theorem Inv.move {started : List (ι × List ι)} {received : List ι} {s : State ι}
    (hinv : Inv started received s) {i : ι} {u : TaskState ι}
    (hmoves : (s.task i).Moves s.task u) :
    Inv started received (s.update s.program i u) := by
  obtain ⟨hrank, hrank', hsent⟩ := hmoves.rank
  have hmem : i ∈ started.map Prod.fst := (hinv.isStarted i).mp hrank
  refine hinv.update hinv.program ?_ (fun _ _ => Iff.rfl) hrank'
    (hsent.symm.trans (hinv.isReceived i)) ((hinv.ok i).move hmoves) ?_
  · exact fun j => (or_iff_left_of_imp fun hj => hj ▸ hmem).symm
  · intro p hp
    refine ⟨fun _ => hp, fun hpi w hw => hinv.waitsFor p hp w ?_⟩
    rw [hpi]
    exact hmoves.waitsFor w hw

/-- One step keeps the invariant, with what was started and received by then. -/
theorem inv_step {started : List (ι × List ι)} {received : List ι} {s t : State ι} {a : Action ι}
    (hinv : Inv started received s) (h : step s a = some t) :
    ∃ started' received', Inv started' received' t := by
  cases State.moves_of_step h with
  | start i wait program hprogram hrank => exact ⟨_, _, hinv.start hprogram hrank _⟩
  | work program hprogram =>
    have hwf := hinv.program
    rw [hprogram] at hwf
    exact ⟨started, received, hwf, hinv.isStarted, hinv.isReceived, hinv.waitsFor, hinv.ok⟩
  | deliver i program result hprogram hphase => exact ⟨_, _, hinv.deliver hprogram hphase⟩
  | task i b u hu => exact ⟨_, _, hinv.move (TaskState.moves_of_step hu)⟩

/-- There is a step, and it changes something. -/
def State.GoesOn (s : State ι) : Prop := ∃ a t, step s a = some t ∧ t ≠ s

/-- Where the collector goes on, its program gets shorter. -/
theorem goesOn_of_collector {s t : State ι} {a : Action ι} {instr : Instr ι}
    (hprogram : s.program = instr :: t.program) (h : step s a = some t) : s.GoesOn := by
  refine ⟨a, t, h, fun heq => ?_⟩
  have hlength := congrArg List.length hprogram
  rw [heq, List.length_cons] at hlength
  omega

/-- A goroutine that gets into another phase is a step of the system. -/
theorem goesOn_of_move {s : State ι} {i : ι} {a : TaskAction} {u : TaskState ι}
    (h : (s.task i).step s.task a = some u) (hphase : (s.task i).phase ≠ u.phase) :
    s.GoesOn := by
  refine ⟨.task i a, s.update s.program i u, Option.map_eq_some_iff.mpr ⟨u, h, rfl⟩, fun heq => ?_⟩
  apply hphase
  conv_lhs => rw [← heq]
  rw [update_task_self]

/-- A goroutine that has delivered its result is done, or goes on by itself. -/
theorem progress_of_sent {s : State ι} {i : ι} (h : 6 ≤ (s.task i).phase.rank) :
    (s.task i).phase = .done ∨ s.GoesOn := by
  cases hphase : (s.task i).phase with
  | sent =>
    have hclose : (s.task i).step s.task .close = some { s.task i with phase := .closed } := by
      simp only [TaskState.step, hphase]
    exact Or.inr (goesOn_of_move hclose (by simp [hphase]))
  | closed =>
    have hdone : (s.task i).step s.task .doneWaitGroup =
        some { s.task i with phase := .done, wg := (s.task i).wg - 1 } := by
      simp only [TaskState.step, hphase]
    exact Or.inr (goesOn_of_move hdone (by simp [hphase]))
  | done => exact Or.inl rfl
  | absent | waiting ws | blocked w ws | endpointSet | initialized | running | finished r =>
    rw [hphase] at h
    simp only [Phase.rank] at h
    omega

/-- The collector does not wait for ever for a task all of whose waits are for tasks that it
has received. -/
theorem progress_of_recv {started : List (ι × List ι)} {received : List ι} {s : State ι}
    (hinv : Inv started received s) {i : ι} {program : List (Instr ι)}
    (hprogram : s.program = .recv i :: program) : s.GoesOn := by
  have hwf := hinv.program
  rw [hprogram] at hwf
  obtain ⟨⟨p, hp, rfl, hwaits⟩, hnew, -⟩ := hwf
  cases hphase : (s.task p.1).phase with
  | absent =>
    have hrank := (hinv.isStarted p.1).mpr (List.mem_map_of_mem hp)
    rw [hphase] at hrank
    exact absurd hrank (show ¬ 1 ≤ 0 by decide)
  | waiting ws =>
    cases ws with
    | nil =>
      have hnext : (s.task p.1).step s.task .setEndpoint =
          some { s.task p.1 with phase := .endpointSet } := by
        simp only [TaskState.step, hphase]
      exact goesOn_of_move hnext (by simp [hphase])
    | cons w ws =>
      have hnext : (s.task p.1).step s.task .waitWaitGroup =
          some { s.task p.1 with
            phase := if (s.task w).cmd then .blocked w ws else .waiting ws } := by
        simp only [TaskState.step, hphase]
        split <;> rfl
      refine goesOn_of_move hnext ?_
      dsimp only
      rw [hphase]
      split <;> simp
  | blocked w ws =>
    have hw : w ∈ p.2 := hinv.waitsFor p hp w (by rw [hphase]; exact List.mem_cons_self)
    rcases progress_of_sent ((hinv.isReceived w).mpr (hwaits w hw)) with hdone | hstep
    · have hwg : (s.task w).wg = 0 := by
        rw [(hinv.ok w).wg, hdone]
        rfl
      have hnext : (s.task p.1).step s.task .waitReturns =
          some { s.task p.1 with phase := .waiting ws } := by
        simp only [TaskState.step, hphase]
        rw [if_pos hwg]
      exact goesOn_of_move hnext (by simp [hphase])
    · exact hstep
  | endpointSet =>
    have hnext : (s.task p.1).step s.task .initWaitGroup =
        some { s.task p.1 with phase := .initialized, wg := (s.task p.1).wg + 1 } := by
      simp only [TaskState.step, hphase]
    exact goesOn_of_move hnext (by simp [hphase])
  | initialized =>
    have hnext : (s.task p.1).step s.task .beginRun =
        some { s.task p.1 with phase := .running } := by
      simp only [TaskState.step, hphase]
    exact goesOn_of_move hnext (by simp [hphase])
  | running =>
    have hnext : (s.task p.1).step s.task (.endRun ⟨[], false⟩ none) =
        some { s.task p.1 with phase := .finished (wrapResult ⟨[], false⟩ none) } := by
      simp only [TaskState.step, hphase]
    exact goesOn_of_move hnext (by simp [hphase])
  | finished result =>
    have hnext : step s .deliver = some (s.update program p.1
        { s.task p.1 with phase := .sent, delivered := (s.task p.1).delivered ++ [result] }) := by
      simp only [step, hprogram, hphase]
    exact goesOn_of_collector hprogram hnext
  | sent | closed | done =>
    have hsent : 6 ≤ (s.task p.1).phase.rank := by
      rw [hphase]
      simp only [Phase.rank]
      omega
    exact absurd ((hinv.isReceived p.1).mp hsent) hnew

/-- A state is final or has a step. -/
theorem progress {started : List (ι × List ι)} {received : List ι} {s : State ι}
    (hinv : Inv started received s) : s.Final ∨ s.GoesOn := by
  have hwf := hinv.program
  cases hprogram : s.program with
  | nil =>
    rw [hprogram] at hwf
    by_cases hall : ∀ i, (s.task i).phase = .absent ∨ (s.task i).phase = .done
    · exact Or.inl ⟨hprogram, hall⟩
    · obtain ⟨i, hi⟩ := not_forall.mp hall
      obtain ⟨habsent, hdone⟩ := not_or.mp hi
      have hrank : 1 ≤ (s.task i).phase.rank := by
        cases hphase : (s.task i).phase with
        | absent => exact absurd hphase habsent
        | waiting ws | blocked w ws | endpointSet | initialized | running | finished r | sent
          | closed | done =>
          simp only [Phase.rank]
          omega
      obtain ⟨p, hp, rfl⟩ := List.mem_map.mp ((hinv.isStarted i).mp hrank)
      have hsent := (hinv.isReceived p.1).mpr (hwf p hp)
      exact Or.inr ((progress_of_sent hsent).resolve_left hdone)
  | cons instr program =>
    right
    cases instr with
    | start i wait =>
      rw [hprogram] at hwf
      have hrank : (s.task i).phase.rank = 0 := by
        have hnot := mt (hinv.isStarted i).mp hwf.1
        omega
      have hnext : step s .collector = some (s.update program i
          ⟨.waiting wait, false, 0, [], wait.filter fun w => Started (s.task w)⟩) := by
        simp only [step, hprogram]
        rw [if_pos hrank]
      exact goesOn_of_collector hprogram hnext
    | recv i => exact progress_of_recv hinv hprogram
    | work =>
      have hnext : step s .collector = some ⟨program, s.task⟩ := by
        simp only [step, hprogram]
      exact goesOn_of_collector hprogram hnext

/-- What is promised of the fan-out in every state: it goes on or is at its end, a channel is
closed after exactly one result and is closed at the end, and no counter is negative. -/
structure Safe (s : State ι) : Prop where
  progress : s.Final ∨ s.GoesOn
  delivered : ∀ i, (s.task i).delivered.length ≤ 1
  closed : ∀ i, 7 ≤ (s.task i).phase.rank → (s.task i).delivered.length = 1
  wg : ∀ i, 0 ≤ (s.task i).wg

theorem Inv.safe {started : List (ι × List ι)} {received : List ι} {s : State ι}
    (hinv : Inv started received s) : Safe s where
  progress := Capture.progress hinv
  delivered i := by
    rw [(hinv.ok i).delivered]
    split <;> omega
  closed i h := by
    rw [(hinv.ok i).delivered, if_pos (by omega)]
  wg i := by
    rw [(hinv.ok i).wg]
    split <;> omega

end Machine

end YcAgent.Capture
