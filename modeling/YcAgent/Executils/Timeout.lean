import YcAgent.Executils.ToWriter

/-!
# What a nil error says about the command

A nil error should mean that the process ended without an error and that the writer has
all of its output. The timer branch overwrites `err` with the result of `KillAndWait`,
which is nil for every kill that works and for a command that is not killed at all. The
states in which taking the timer does no harm are characterised exactly.
-/
namespace YcAgent.Executils.ToWriter

open Go

/-- The process ended without an error and the writer has all of its output. -/
def State.Done (s : State) : Prop := s.process.Succeeded ∧ s.written = s.process.output

/-- Whether there is a file to return, and the error; `err` is what the writer variant returns. -/
def commandCombinedOutputToFile (createErr err : Option GoString) : Bool × Option GoString :=
  match createErr with
  | some e => (false, some e)
  | none =>
    match err with
    | some e => (false, some e)
    | none => (true, none)

/-- A call that returned a nil error, of either function, left its work done. -/
structure NilMeansDone (s : State) : Prop where
  toWriter : s.caller = .returned none → s.Done
  toFile : ∀ createErr err, s.caller = .returned err →
    (commandCombinedOutputToFile createErr err).2 = none → s.Done

theorem nilMeansDone_iff {s : State} : NilMeansDone s ↔ (s.caller = .returned none → s.Done) := by
  constructor
  · exact NilMeansDone.toWriter
  · refine fun h => ⟨h, fun createErr err hret hnil => ?_⟩
    cases createErr with
    | some e => exact nomatch hnil
    | none =>
      cases err with
      | some e => exact nomatch hnil
      | none => exact h hret

/-- The goroutine has not assigned the result of `CombinedOutput` yet. -/
def Routine.Pending : Routine → Prop
  | .calling | .draining _ | .returned _ => True
  | _ => False

def Routine.Unwritten : Routine → Prop
  | .calling | .draining _ | .returned _ | .assigned | .failed | .because | .succeeded => True
  | _ => False

section

variable (m : CmdManager) (w : World)

/-- The goroutine will not replace an error by nil before the output is written. -/
def KeepsErr (s : State) : Prop := s.routine.Pending → w.exitErr ≠ none ∨ w.output = []

def KillFails (s : State) : Prop := ∃ e, m.killAndWait w.killErr s.process = .returns (some e)

/-- Taking the timer here cannot end in a nil error for a command that is not done. -/
def Harmless (s : State) : Prop := s.Done ∨ KillFails m w s ∧ KeepsErr w s

/-- The timer branch is taken only in states of `T`. -/
def TimerIn (T : State → Prop) (s : State) (a : Action) (_ : State) : Prop := a = .takeTimer → T s

theorem timerIn_of_ne {T : State → Prop} {s t : State} {a : Action} (h : a ≠ .takeTimer) :
    TimerIn T s a t :=
  fun ha => absurd ha h

/-! ### What the goroutine knows -/

/-- The content of the position of the goroutine, as long as only it assigned `err` or the
caller assigned an error. -/
def State.RoutineOk (s : State) : Prop :=
  match s.routine with
  | .calling => True
  | .draining e | .returned e => e = none → s.process.Succeeded
  | .assigned => s.err = none → s.process.Succeeded
  | .failed | .because | .noted _ => s.err ≠ none
  | .succeeded => s.process.Succeeded
  | .wrote e => e = none → s.Done
  | .sending | .finished => s.err = none → s.Done

def CallerOk (s : State) : Prop :=
  match s.caller with
  | .selecting => True
  | .killing => Harmless m w s
  | .waiting => False
  | .returning => s.err ≠ none ∧ KeepsErr w s
  | .returned err => err ≠ none

structure Inv (s : State) : Prop where
  unwritten : s.routine.Unwritten → s.written = []
  succeeded : ∀ output reaped, s.process = .exited output none reaped →
    output = w.output ∧ w.exitErr = none
  safe : s.Done ∨ s.RoutineOk ∧ CallerOk m w s

end

variable {m : CmdManager} {w : World} {s t : State} {a : Action}

theorem pending_of_moves (h : Moves m w s a t) (ht : t.routine.Pending) : s.routine.Pending := by
  cases h <;> simp_all [Routine.Pending]

theorem keepsErr_of_moves (h : Moves m w s a t) (hs : KeepsErr w s) : KeepsErr w t :=
  fun ht => hs (pending_of_moves h ht)

theorem next_of_moves (h : Moves m w s a t) : s.process.Next t.process := by
  cases h with
  | starts _ hp => rw [hp]; exact .starts
  | exits hp | dies _ hp => rw [hp]; exact .exits _ _
  | reaps _ hp | waits _ hp => rw [hp]; exact .reaped _ _ _
  | _ => exact .same _

theorem killFails_of_moves (h : Moves m w s a t) (hs : KillFails m w s) : KillFails m w t :=
  CmdManager.killAndWait_next (next_of_moves h) hs

theorem accepted_nil (w : World) : w.accepted [] = [] := by
  unfold World.accepted
  split <;> simp

/-- What is done stays done: a writer that has all of an output before the write has an
empty one. -/
theorem done_of_moves (h : Moves m w s a t) (hu : s.routine.Unwritten → s.written = [])
    (hs : s.Done) : t.Done := by
  obtain ⟨hsucc, hout⟩ := hs
  obtain ⟨hsucc', hout'⟩ := (next_of_moves h).succeeded hsucc
  refine ⟨hsucc', ?_⟩
  rw [hout', ← hout]
  cases h with
  | writesFailed hr | writes hr =>
    have hnil : s.written = [] := hu (by rw [hr]; trivial)
    show s.written ++ w.accepted s.process.output = s.written
    rw [← hout, hnil, accepted_nil, List.append_nil]
  | _ => rfl

theorem harmless_of_moves (h : Moves m w s a t) (hu : s.routine.Unwritten → s.written = [])
    (hs : Harmless m w s) : Harmless m w t := by
  obtain hdone | ⟨hkill, hkeeps⟩ := hs
  · exact .inl (done_of_moves h hu hdone)
  · exact .inr ⟨killFails_of_moves h hkill, keepsErr_of_moves h hkeeps⟩

theorem accepted_eq_of_writeErr {w : World} (h : w.writeErr = none) (output : GoString) :
    w.accepted output = output := by
  have hw : w.write = none := by simpa [World.writeErr] using h
  simp [World.accepted, hw]

theorem unwritten_of_moves (h : Moves m w s a t) (hu : s.routine.Unwritten → s.written = [])
    (ht : t.routine.Unwritten) : t.written = [] := by
  cases h with
  | writesFailed | writes => exact ht.elim
  | notes | records | takesDone => exact ht.elim
  | startFails hr | reaps hr | drains hr | assigns hr | fails hr | succeeds hr | wraps hr =>
    exact hu (by rw [hr]; trivial)
  | _ => exact hu ht

theorem succeeded_of_moves (h : Moves m w s a t)
    (hs : ∀ output reaped, s.process = .exited output none reaped →
      output = w.output ∧ w.exitErr = none)
    (output : GoString) (reaped : Bool) (ht : t.process = .exited output none reaped) :
    output = w.output ∧ w.exitErr = none := by
  cases h with
  | starts => exact nomatch ht
  | exits =>
    obtain ⟨rfl, he, -⟩ := Process.exited.inj ht
    exact ⟨rfl, he⟩
  | dies => exact nomatch (Process.exited.inj ht).2.1
  | reaps _ hp | waits _ hp =>
    obtain ⟨rfl, rfl, -⟩ := Process.exited.inj ht
    exact hs _ _ hp
  | _ => exact hs _ _ ht

/-- A step that leaves the goroutine where it is and makes no error nil. -/
theorem routineOk_of_moves (h : Moves m w s a t) (hu : s.routine.Unwritten → s.written = [])
    (hroutine : t.routine = s.routine) (herr : s.err ≠ none → t.err ≠ none)
    (hs : s.RoutineOk) : t.RoutineOk := by
  have hsucc : s.process.Succeeded → t.process.Succeeded :=
    fun hp => ((next_of_moves h).succeeded hp).1
  have hdone : s.Done → t.Done := done_of_moves h hu
  have hnil : t.err = none → s.err = none := fun ht => by
    by_contra hne
    exact herr hne ht
  unfold State.RoutineOk at hs ⊢
  rw [hroutine]
  split at hs
  · trivial
  · exact fun he => hsucc (hs he)
  · exact fun he => hsucc (hs he)
  · exact fun he => hsucc (hs (hnil he))
  · exact herr hs
  · exact herr hs
  · exact herr hs
  · exact hsucc hs
  · exact fun he => hdone (hs he)
  · exact fun he => hdone (hs (hnil he))
  · exact fun he => hdone (hs (hnil he))

theorem callerOk_of_moves (h : Moves m w s a t) (hu : s.routine.Unwritten → s.written = [])
    (hcaller : t.caller = s.caller) (herr : s.caller = .returning → s.err ≠ none → t.err ≠ none)
    (hs : CallerOk m w s) : CallerOk m w t := by
  unfold CallerOk at hs ⊢
  rw [hcaller]
  split at hs
  · trivial
  · exact harmless_of_moves h hu hs
  · exact hs
  · rename_i hret
    exact ⟨herr hret hs.1, keepsErr_of_moves h hs.2⟩
  · exact hs

/-- The caller returns a failed kill: the goroutine makes its error nil only for an empty
output, which is written. -/
theorem done_of_late_assign (hs : Inv m w s) (hret : s.routine = .returned none)
    (hcall : s.caller = .returning) (hr : s.RoutineOk) (hc : CallerOk m w s) : s.Done := by
  have hsucceeded : s.process.Succeeded := by
    simpa only [State.RoutineOk, hret, true_imp_iff] using hr
  simp only [CallerOk, hcall] at hc
  obtain ⟨output, reaped, hp⟩ := hsucceeded
  obtain ⟨rfl, hexit⟩ := hs.succeeded _ _ hp
  have hnil : w.output = [] := by
    apply (hc.2 (by rw [hret]; trivial)).resolve_left
    exact fun hne => hne hexit
  have hunwritten : s.written = [] := hs.unwritten (by rw [hret]; trivial)
  refine ⟨⟨w.output, reaped, hp⟩, ?_⟩
  rw [hunwritten, hp, Process.output, hnil]

theorem safe_of_moves (h : Moves m w s a t) (hs : Inv m w s) (hg : TimerIn (Harmless m w) s a t) :
    t.Done ∨ t.RoutineOk ∧ CallerOk m w t := by
  obtain hdone | ⟨hr, hc⟩ := hs.safe
  · exact .inl (done_of_moves h hs.unwritten hdone)
  have hstay := routineOk_of_moves h hs.unwritten
  have hcaller := callerOk_of_moves h hs.unwritten
  cases h with
  | startFails => exact .inr ⟨nofun, hcaller rfl (fun _ => id) hc⟩
  | starts | exits | dies | expires => exact .inr ⟨hstay rfl id hr, hcaller rfl (fun _ => id) hc⟩
  | @reaps output err reaped hcall hp =>
    refine .inr ⟨fun he => ?_, hcaller rfl (fun _ => id) hc⟩
    cases reaped with
    | true => exact nomatch he
    | false =>
      obtain rfl : err = none := he
      exact ⟨output, true, rfl⟩
  | drains hdr =>
    simp only [State.RoutineOk, hdr] at hr
    exact .inr ⟨hr, hcaller rfl (fun _ => id) hc⟩
  | @assigns err hret =>
    by_cases hlate : err = none ∧ s.caller = .returning
    · obtain ⟨rfl, hcall⟩ := hlate
      have hdone : s.Done := done_of_late_assign hs hret hcall hr hc
      exact .inl hdone
    · simp only [State.RoutineOk, hret] at hr
      exact .inr ⟨hr, hcaller rfl (fun hcall _ he => hlate ⟨he, hcall⟩) hc⟩
  | fails _ he => exact .inr ⟨he, hcaller rfl (fun _ => id) hc⟩
  | succeeds has he =>
    simp only [State.RoutineOk, has] at hr
    exact .inr ⟨hr he, hcaller rfl (fun _ => id) hc⟩
  | wraps hfail he =>
    simp only [State.RoutineOk, hfail] at hr
    exact .inr ⟨he hr, hcaller rfl (fun _ => he) hc⟩
  | writesFailed hbec =>
    simp only [State.RoutineOk, hbec] at hr
    exact .inr ⟨hr, hcaller rfl (fun _ => id) hc⟩
  | writes hsuc =>
    simp only [State.RoutineOk, hsuc] at hr
    refine .inr ⟨fun he => ⟨hr, ?_⟩, hcaller rfl (fun _ => id) hc⟩
    have hunwritten : s.written = [] := hs.unwritten (by rw [hsuc]; trivial)
    show s.written ++ w.accepted s.process.output = s.process.output
    rw [hunwritten, accepted_eq_of_writeErr he, List.nil_append]
  | notes hnote he =>
    simp only [State.RoutineOk, hnote] at hr
    exact .inr ⟨fun hnil => absurd hnil (he hr), hcaller rfl (fun _ => he) hc⟩
  | @records e hwrote =>
    simp only [State.RoutineOk, hwrote] at hr
    cases e with
    | none => exact .inl (hr rfl)
    | some e => exact .inr ⟨nofun, hcaller rfl (fun _ _ => nofun) hc⟩
  | takesTimer => exact .inr ⟨hstay rfl id hr, hg rfl⟩
  | takesDone _ hsend =>
    simp only [State.RoutineOk, hsend] at hr
    by_cases he : s.err = none
    · exact .inl (hr he)
    · exact .inr ⟨hr, he, fun hpend => hpend.elim⟩
  | @kills err hcall hk =>
    simp only [CallerOk, hcall] at hc
    obtain hdone | ⟨⟨e, he⟩, hkeeps⟩ := hc
    · exact .inl hdone
    · obtain rfl : err = some e := Killed.returns.inj (hk.symm.trans he)
      exact .inr ⟨hstay rfl (fun _ => nofun) hr, nofun, hkeeps⟩
  | signals hcall hk =>
    simp only [CallerOk, hcall] at hc
    obtain hdone | ⟨⟨e, he⟩, -⟩ := hc
    · exact .inl hdone
    · exact nomatch hk.symm.trans he
  | waits hcall =>
    simp only [CallerOk, hcall] at hc
  | returns hcall =>
    simp only [CallerOk, hcall] at hc
    exact .inr ⟨hstay rfl id hr, hc.1⟩

theorem inv_step (hs : Inv m w s) (h : step m w s a = some t)
    (hg : TimerIn (Harmless m w) s a t) : Inv m w t :=
  have hmoves := moves_of_step h
  { unwritten := unwritten_of_moves hmoves hs.unwritten
    succeeded := succeeded_of_moves hmoves hs.succeeded
    safe := safe_of_moves hmoves hs hg }

theorem inv_init (hm : m.isSkipped = false) : Inv m w (init m) := by
  have hinit : init m = ⟨.calling, .absent, [], none, false, .selecting⟩ := by
    simp [init, hm]
  rw [hinit]
  exact ⟨fun _ => rfl, nofun, .inr ⟨trivial, trivial⟩⟩

theorem Inv.nilMeansDone (hs : Inv m w s) : NilMeansDone s := by
  refine nilMeansDone_iff.mpr fun hret => ?_
  obtain hdone | ⟨-, hc⟩ := hs.safe
  · exact hdone
  · rw [CallerOk, hret] at hc
    exact absurd rfl hc

end YcAgent.Executils.ToWriter
