import YcAgent.Capture.GoCapture

/-!
# What still runs while the collector goes on

Where the collector stands in its program says which goroutines have a result to deliver:
those of the tasks it has started and not received. A collector that receives each task
right after its start runs them one at a time.
-/
namespace YcAgent.Capture

open Go Transition

section Machine

variable {ι : Type*}

/-- A goroutine that was started and has not delivered its result. -/
def Live (t : TaskState ι) : Prop := 1 ≤ t.phase.rank ∧ ¬ 6 ≤ t.phase.rank

/-- The tasks that a program starts. -/
def starts (program : List (Instr ι)) : List ι :=
  program.filterMap fun
    | .start i _ => some i
    | .recv _ | .work => none

/-- The tasks whose results a program receives. -/
def receives (program : List (Instr ι)) : List ι :=
  program.filterMap fun
    | .recv i => some i
    | .start _ _ | .work => none

theorem mem_starts_append {before after : List (Instr ι)} {i : ι} :
    i ∈ starts (before ++ after) ↔ i ∈ starts before ∨ i ∈ starts after := by
  rw [starts, List.filterMap_append, List.mem_append]
  rfl

theorem mem_receives_append {before after : List (Instr ι)} {i : ι} :
    i ∈ receives (before ++ after) ↔ i ∈ receives before ∨ i ∈ receives after := by
  rw [receives, List.filterMap_append, List.mem_append]
  rfl

/-- The collector is behind `before`, and the goroutines are as far as this says. -/
structure Behind (before : List (Instr ι)) (s : State ι) : Prop where
  started : ∀ i, 1 ≤ (s.task i).phase.rank ↔ i ∈ starts before
  received : ∀ i, 6 ≤ (s.task i).phase.rank ↔ i ∈ receives before

/-- The place in the program, with all that is live there. -/
def Located (program : List (Instr ι)) (s : State ι) : Prop :=
  ∃ before, program = before ++ s.program ∧ Behind before s

theorem Behind.live_iff {before : List (Instr ι)} {s : State ι} (h : Behind before s) (i : ι) :
    Live (s.task i) ↔ i ∈ starts before ∧ i ∉ receives before :=
  and_congr (h.started i) (not_congr (h.received i))

theorem located_init (program : List (Instr ι)) : Located program (init program) := by
  refine ⟨[], rfl, fun i => ?_, fun i => ?_⟩
  · exact iff_of_false (show ¬ 1 ≤ 0 by decide) List.not_mem_nil
  · exact iff_of_false (show ¬ 6 ≤ 0 by decide) List.not_mem_nil

variable [DecidableEq ι]

/-- A change of one task, behind one instruction more. -/
theorem Behind.update {before before' : List (Instr ι)} {s : State ι} (h : Behind before s)
    {program : List (Instr ι)} {i : ι} {t : TaskState ι}
    (hstarts : ∀ j, j ≠ i → (j ∈ starts before' ↔ j ∈ starts before))
    (hreceives : ∀ j, j ≠ i → (j ∈ receives before' ↔ j ∈ receives before))
    (hstarted : 1 ≤ t.phase.rank ↔ i ∈ starts before')
    (hreceived : 6 ≤ t.phase.rank ↔ i ∈ receives before') :
    Behind before' (s.update program i t) where
  started j := by
    by_cases hj : j = i
    · subst hj
      rw [update_task_self]
      exact hstarted
    · rw [update_task_of_ne _ _ hj, hstarts j hj]
      exact h.started j
  received j := by
    by_cases hj : j = i
    · subst hj
      rw [update_task_self]
      exact hreceived
    · rw [update_task_of_ne _ _ hj, hreceives j hj]
      exact h.received j

theorem Behind.start {before : List (Instr ι)} {s : State ι} (h : Behind before s) {i : ι}
    {wait : List ι} {rest : List (Instr ι)} (hrank : (s.task i).phase.rank = 0)
    (earlier : List ι) :
    Behind (before ++ [.start i wait])
      (s.update rest i ⟨.waiting wait, false, 0, [], earlier⟩) := by
  have hfresh : i ∉ receives before := fun hi => by
    have hsent := (h.received i).mpr hi
    omega
  refine h.update (fun j hj => ?_) (fun j _ => ?_) ?_ ?_
  · rw [mem_starts_append]
    exact or_iff_left fun hmem => hj (List.mem_singleton.mp hmem)
  · rw [mem_receives_append]
    exact or_iff_left List.not_mem_nil
  · rw [mem_starts_append]
    exact iff_of_true (Nat.le_refl 1) (Or.inr List.mem_cons_self)
  · rw [mem_receives_append]
    exact iff_of_false (show ¬ 6 ≤ 1 by decide) (not_or.mpr ⟨hfresh, List.not_mem_nil⟩)

omit [DecidableEq ι] in
theorem Behind.work {before : List (Instr ι)} {s : State ι} (h : Behind before s)
    (rest : List (Instr ι)) : Behind (before ++ [.work]) ⟨rest, s.task⟩ := by
  refine ⟨fun i => ?_, fun i => ?_⟩
  · rw [mem_starts_append, ← h.started i]
    exact (or_iff_left List.not_mem_nil).symm
  · rw [mem_receives_append, ← h.received i]
    exact (or_iff_left List.not_mem_nil).symm

/-- Only a goroutine that was started has a result to deliver. -/
theorem Behind.deliver {before : List (Instr ι)} {s : State ι} (h : Behind before s) {i : ι}
    {rest : List (Instr ι)} {result : Result} (hphase : (s.task i).phase = .finished result)
    (delivered : List Result) :
    Behind (before ++ [.recv i])
      (s.update rest i { s.task i with phase := .sent, delivered := delivered }) := by
  have hmem : i ∈ starts before := by
    rw [← h.started i, hphase]
    exact show 1 ≤ 5 by decide
  refine h.update (fun j _ => ?_) (fun j hj => ?_) ?_ ?_
  · rw [mem_starts_append]
    exact or_iff_left List.not_mem_nil
  · rw [mem_receives_append]
    exact or_iff_left fun hmem => hj (List.mem_singleton.mp hmem)
  · rw [mem_starts_append]
    exact iff_of_true (show 1 ≤ 6 by decide) (Or.inl hmem)
  · rw [mem_receives_append]
    exact iff_of_true (Nat.le_refl 6) (Or.inr List.mem_cons_self)

theorem Behind.move {before : List (Instr ι)} {s : State ι} (h : Behind before s) {i : ι}
    {u : TaskState ι} (hmoves : (s.task i).Moves s.task u) :
    Behind before (s.update s.program i u) := by
  obtain ⟨hrank, hrank', hsent⟩ := hmoves.rank
  refine h.update (fun _ _ => Iff.rfl) (fun _ _ => Iff.rfl) ?_ ?_
  · exact iff_of_true hrank' ((h.started i).mp hrank)
  · exact hsent.symm.trans (h.received i)

theorem located_step {program : List (Instr ι)} {s t : State ι} {a : Action ι}
    (h : Located program s) (hstep : step s a = some t) : Located program t := by
  obtain ⟨before, rfl, hbehind⟩ := h
  have hnext : ∀ instr rest, s.program = instr :: rest →
      before ++ s.program = before ++ [instr] ++ rest := by
    intro instr rest hprogram
    rw [hprogram, List.append_assoc, List.singleton_append]
  cases State.moves_of_step hstep with
  | start i wait rest hprogram hrank =>
    exact ⟨before ++ [.start i wait], hnext _ _ hprogram, hbehind.start hrank _⟩
  | work rest hprogram => exact ⟨before ++ [.work], hnext _ _ hprogram, hbehind.work rest⟩
  | deliver i rest result hprogram hphase =>
    exact ⟨before ++ [.recv i], hnext _ _ hprogram, hbehind.deliver hphase _⟩
  | task i b u hu => exact ⟨before, rfl, hbehind.move (TaskState.moves_of_step hu)⟩

omit [DecidableEq ι] in
/-- A well-formed program receives all that it starts. -/
theorem WellFormed.receives {started : List (ι × List ι)} {received : List ι}
    {program : List (Instr ι)} (h : WellFormed started received program) {i : ι}
    (hi : i ∈ started.map Prod.fst ∨ i ∈ starts program) :
    i ∈ received ∨ i ∈ Capture.receives program := by
  induction program generalizing started received with
  | nil =>
    obtain ⟨p, hp, rfl⟩ := List.mem_map.mp (hi.resolve_right List.not_mem_nil)
    exact Or.inl (h p hp)
  | cons instr rest ih =>
    cases instr with
    | start j wait =>
      refine ih h.2 ?_
      rcases hi with hi | hi
      · exact Or.inl (List.mem_cons_of_mem j hi)
      · rcases List.mem_cons.mp hi with rfl | hi
        · exact Or.inl List.mem_cons_self
        · exact Or.inr hi
    | recv j =>
      rcases ih h.2.2 hi with hreceived | hrest
      · rcases List.mem_cons.mp hreceived with rfl | hreceived
        · exact Or.inr List.mem_cons_self
        · exact Or.inl hreceived
      · exact Or.inr (List.mem_cons_of_mem j hrest)
    | work => exact ih h hi

/-- At the end of its program the collector has one result of every task it started, and no
goroutine is left that has a result to deliver. -/
def Awaited (program : List (Instr ι)) (s : State ι) : Prop :=
  s.program = [] →
    (∀ i, ¬ Live (s.task i)) ∧ ∀ i ∈ starts program, (s.task i).delivered.length = 1

omit [DecidableEq ι] in
theorem Located.awaited {program : List (Instr ι)} (hwf : WellFormed [] [] program)
    {s : State ι} (h : Located program s) (hok : ∀ i, (s.task i).Ok) : Awaited program s := by
  intro hend
  obtain ⟨before, hsplit, hbehind⟩ := h
  obtain rfl : program = before := by rw [hsplit, hend, List.append_nil]
  have hreceived : ∀ i ∈ starts program, i ∈ Capture.receives program := fun i hi =>
    (hwf.receives (Or.inr hi)).resolve_left List.not_mem_nil
  constructor
  · intro i hlive
    obtain ⟨hstart, hnot⟩ := (hbehind.live_iff i).mp hlive
    exact hnot (hreceived i hstart)
  · intro i hi
    rw [(hok i).delivered, if_pos ((hbehind.received i).mpr (hreceived i hi))]

/-- Whatever follows from the place of a well-formed collector and what is promised of it
holds in every state of every run. -/
theorem throughout_located {program : List (Instr ι)} (hwf : WellFormed [] [] program)
    {Q : State ι → Prop}
    (hQ : ∀ s, Safe s → Awaited program s → Located program s → Q s) (as : List (Action ι)) :
    Throughout step Q (init program) as := by
  refine throughout_of_along
    (I := fun s => (∃ started received, Inv started received s) ∧ Located program s)
    (G := fun _ _ _ => True) ?_ ?_ ⟨⟨[], [], inv_init hwf⟩, located_init program⟩
    (along_true _ as)
  · intro s a t hs hstep _
    obtain ⟨⟨started, received, hinv⟩, hlocated⟩ := hs
    exact ⟨inv_step hinv hstep, located_step hlocated hstep⟩
  · intro s hs
    obtain ⟨⟨started, received, hinv⟩, hlocated⟩ := hs
    exact hQ s hinv.safe (hlocated.awaited hwf hinv.ok) hlocated

/-- Each task but the `kept` ones is received right after its start. -/
def Paired (kept : ι → Prop) : List (Instr ι) → Prop
  | [] => True
  | .start i _ :: rest => (kept i ∨ ∃ rest', rest = .recv i :: rest') ∧ Paired kept rest
  | .recv _ :: rest | .work :: rest => Paired kept rest

/-- What is live is kept, or the one whose result the collector is waiting for. -/
def Alone (kept : ι → Prop) (s : State ι) : Prop :=
  ∀ i, Live (s.task i) → kept i ∨ ∃ rest, s.program = .recv i :: rest

omit [DecidableEq ι] in
theorem Paired.append {kept : ι → Prop} {first second : List (Instr ι)}
    (hfirst : Paired kept first) (hsecond : Paired kept second) :
    Paired kept (first ++ second) := by
  induction first with
  | nil => exact hsecond
  | cons instr rest ih =>
    cases instr with
    | start i wait =>
      obtain ⟨hnext, hrest⟩ := hfirst
      refine ⟨hnext.imp_right fun hex => ?_, ih hrest⟩
      obtain ⟨rest', rfl⟩ := hex
      exact ⟨rest' ++ second, rfl⟩
    | recv i | work => exact ih hfirst

omit [DecidableEq ι] in
/-- In a paired program the tasks started and not received are kept, or to be received next. -/
theorem Paired.pending {kept : ι → Prop} {before after : List (Instr ι)}
    (h : Paired kept (before ++ after)) {i : ι} (hi : i ∈ starts before)
    (hnot : i ∉ receives before) : kept i ∨ ∃ rest, after = .recv i :: rest := by
  induction before with
  | nil => exact absurd hi List.not_mem_nil
  | cons instr rest ih =>
    cases instr with
    | start j wait =>
      obtain ⟨hnext, hrest⟩ := h
      by_cases hstarted : i ∈ starts rest
      · exact ih hrest hstarted hnot
      · obtain rfl : i = j := (List.mem_cons.mp hi).resolve_right hstarted
        refine hnext.imp_right fun hex => ?_
        obtain ⟨rest', hrest'⟩ := hex
        cases rest with
        | nil => exact ⟨rest', hrest'⟩
        | cons instr' rest =>
          obtain rfl : instr' = .recv i := (List.cons.inj hrest').1
          exact absurd List.mem_cons_self hnot
    | recv j => exact ih h hi fun hmem => hnot (List.mem_cons_of_mem j hmem)
    | work => exact ih h hi hnot

omit [DecidableEq ι] in
theorem Located.alone {kept : ι → Prop} {program : List (Instr ι)} (hpaired : Paired kept program)
    {s : State ι} (h : Located program s) : Alone kept s := by
  obtain ⟨before, rfl, hbehind⟩ := h
  intro i hlive
  obtain ⟨hstart, hnot⟩ := (hbehind.live_iff i).mp hlive
  exact hpaired.pending hstart hnot

end Machine

end YcAgent.Capture
