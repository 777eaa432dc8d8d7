import YcAgent.Executils.Timeout

/-!
# Every other timeout can be reported as success

From a state that is not harmless the timer branch leads to a nil error: at once where
`KillAndWait` returns nil, after the wait where the kill works, and through the goroutine,
which assigns the result of `CombinedOutput` before it writes, where the kill fails.
-/
namespace YcAgent.Executils.ToWriter

open Go
open Transition (Reachable Along Throughout)

variable {m : CmdManager} {w : World} {s t : State} {a : Action}

/-- What is known while the caller has not chosen a branch. -/
structure Undecided (w : World) (s : State) : Prop where
  exited : ∀ output err reaped, s.process = .exited output err reaped →
    output = w.output ∧ err = w.exitErr
  calling : s.routine = .calling → ∀ output err, s.process ≠ .exited output err true
  fetched : ∀ err, s.routine = .draining err ∨ s.routine = .returned err →
    s.process = .absent ∨ s.process = .exited w.output err true

theorem selecting_of_moves (h : Moves m w s a t) (ht : t.caller = .selecting) :
    s.caller = .selecting := by
  cases h with
  | takesTimer | takesDone | kills | signals | waits | returns => exact nomatch ht
  | _ => exact ht

theorem undecided_of_moves (h : Moves m w s a t) (ht : t.caller = .selecting)
    (hs : Undecided w s) : Undecided w t := by
  cases h with
  | startFails _ hp => exact ⟨hs.exited, nofun, fun _ _ => .inl hp⟩
  | starts hr =>
    refine ⟨nofun, fun _ => nofun, fun err hf => ?_⟩
    obtain hf | hf := hf <;> exact nomatch hr.symm.trans hf
  | exits hp =>
    refine ⟨fun output err reaped he => ?_, fun _ output err he => ?_, fun err hf => ?_⟩
    · obtain ⟨rfl, rfl, -⟩ := Process.exited.inj he
      exact ⟨rfl, rfl⟩
    · exact nomatch (Process.exited.inj he).2.2
    · obtain hf | hf := hs.fetched err hf <;> exact nomatch hp.symm.trans hf
  | dies _ _ hc => exact nomatch hc.symm.trans ht
  | @reaps output err reaped hr hp =>
    obtain ⟨rfl, rfl⟩ := hs.exited _ _ _ hp
    have hfirst : reaped = false := by
      cases reaped with
      | false => rfl
      | true => exact absurd hp (hs.calling hr _ _)
    subst hfirst
    refine ⟨fun output err reaped he => ?_, nofun, fun err hf => ?_⟩
    · obtain ⟨rfl, rfl, -⟩ := Process.exited.inj he
      exact ⟨rfl, rfl⟩
    · obtain hf | hf := hf
      · obtain rfl : w.exitErr = err := Routine.draining.inj hf
        exact .inr rfl
      · exact nomatch hf
  | @drains err hr =>
    refine ⟨hs.exited, nofun, fun err' hf => ?_⟩
    obtain hf | hf := hf
    · exact nomatch hf
    · obtain rfl : err = err' := Routine.returned.inj hf
      exact hs.fetched err (.inl hr)
  | expires => exact ⟨hs.exited, hs.calling, hs.fetched⟩
  | takesTimer | takesDone | kills | signals | waits | returns => exact nomatch ht
  | _ =>
    refine ⟨hs.exited, nofun, fun err hf => ?_⟩
    obtain hf | hf := hf <;> exact nomatch hf

theorem undecided_init (hm : m.isSkipped = false) : Undecided w (init m) := by
  have hinit : init m = ⟨.calling, .absent, [], none, false, .selecting⟩ := by
    simp [init, hm]
  rw [hinit]
  refine ⟨fun output err reaped hp => ?_, fun _ output err hp => ?_, fun _ _ => .inl rfl⟩
  · cases hp
  · cases hp

section Continue

variable {T : State → Prop}

/-- A state that can be continued to a nil error of a command that is not done. -/
def Harmful (m : CmdManager) (w : World) (T : State → Prop) (s : State) : Prop :=
  ∀ s₀, Reachable (step m w) (TimerIn T) s₀ s →
    ∃ t, Reachable (step m w) (TimerIn T) s₀ t ∧ ¬ NilMeansDone t

theorem Harmful.of_step (h : step m w s a = some t) (ha : TimerIn T s a t)
    (ht : Harmful m w T t) : Harmful m w T s :=
  fun s₀ hs => ht s₀ (hs.next h ha)

theorem harmful_of_nil (hc : s.caller = .returning) (he : s.err = none) (hd : ¬ s.Done) :
    Harmful m w T s := by
  have hret : step m w s .ret = some { s with caller := .returned s.err } := by
    simp [step, hc]
  refine fun s₀ hs => ⟨_, hs.next hret (timerIn_of_ne (by decide)), fun hnil => hd ?_⟩
  exact hnil.toWriter (by rw [he])

theorem harmful_of_returned (hc : s.caller = .returning) (hr : s.routine = .returned none)
    (hw : s.written = []) (hout : s.process.output ≠ []) : Harmful m w T s := by
  have hassign : step m w s .assign = some { s with routine := .assigned, err := none } := by
    simp [step, hr]
  apply Harmful.of_step hassign (timerIn_of_ne (by decide))
  apply harmful_of_nil
  · exact hc
  · rfl
  · intro hex
    obtain ⟨-, hall⟩ := hex
    exact hout (hall.symm.trans hw)

theorem harmful_of_draining (hc : s.caller = .returning) (hr : s.routine = .draining none)
    (hw : s.written = []) (hout : s.process.output ≠ []) : Harmful m w T s := by
  have hdrained : step m w s .drained = some { s with routine := .returned none } := by
    simp [step, hr]
  apply Harmful.of_step hdrained (timerIn_of_ne (by decide))
  exact harmful_of_returned hc rfl hw hout

theorem harmful_of_exited (hc : s.caller = .returning) (hr : s.routine = .calling)
    (hw : s.written = []) {output : GoString} (hp : s.process = .exited output none false)
    (hout : output ≠ []) : Harmful m w T s := by
  have hreap : step m w s .reap =
      some { s with routine := .draining none, process := .exited output none true } := by
    simp [step, hr, hp, Process.reap]
  apply Harmful.of_step hreap (timerIn_of_ne (by decide))
  exact harmful_of_draining hc rfl hw hout

theorem harmful_of_running (hc : s.caller = .returning) (hr : s.routine = .calling)
    (hw : s.written = []) (hp : s.process = .running) (hexit : w.exitErr = none)
    (hout : w.output ≠ []) : Harmful m w T s := by
  have hexits : step m w s .exits =
      some { s with process := .exited w.output none false } := by
    simp [step, hp, hexit]
  apply Harmful.of_step hexits (timerIn_of_ne (by decide))
  exact harmful_of_exited hc hr hw rfl hout

/-- The kill fails, and the goroutine then replaces its error by the nil of the command. -/
theorem harmful_of_killFails (hs : Undecided w s) (hw : s.written = [])
    (hc : t.caller = .returning) (hroutine : t.routine = s.routine)
    (hprocess : t.process = s.process) (hwritten : t.written = s.written)
    (hfails : KillFails m w s) (hpending : s.routine.Pending) (hexit : w.exitErr = none)
    (hout : w.output ≠ []) : Harmful m w T t := by
  have habsent : s.process ≠ .absent := by
    intro hp
    obtain ⟨e, he⟩ := hfails
    rw [hp] at he
    cases m with
    | waitCmd c => exact nomatch he
    | cmd c =>
      obtain ⟨⟨_ | command⟩⟩ := c <;> exact nomatch he
  rw [← hwritten] at hw
  have hfetched : ∀ err, s.routine = .draining err ∨ s.routine = .returned err →
      err = none ∧ t.process = .exited w.output none true := by
    intro err hf
    have hp := (hs.fetched err hf).resolve_left habsent
    obtain rfl : err = none := (hs.exited _ _ _ hp).2.trans hexit
    exact ⟨rfl, hprocess.trans hp⟩
  cases hr : s.routine with
  | calling =>
    cases hp : s.process with
    | absent => exact absurd hp habsent
    | running =>
      exact harmful_of_running hc (hroutine.trans hr) hw (hprocess.trans hp) hexit hout
    | exited output err reaped =>
      obtain ⟨rfl, rfl⟩ := hs.exited _ _ _ hp
      cases reaped with
      | true => exact absurd hp (hs.calling hr _ _)
      | false =>
        rw [hexit] at hp
        exact harmful_of_exited hc (hroutine.trans hr) hw (hprocess.trans hp) hout
  | draining err =>
    obtain ⟨rfl, hp⟩ := hfetched err (.inl hr)
    apply harmful_of_draining hc (hroutine.trans hr) hw
    rw [hp]
    exact hout
  | returned err =>
    obtain ⟨rfl, hp⟩ := hfetched err (.inr hr)
    apply harmful_of_returned hc (hroutine.trans hr) hw
    rw [hp]
    exact hout
  | _ =>
    rw [hr] at hpending
    exact hpending.elim

theorem unreaped_of_waits (h : m.killAndWait w.killErr s.process = .waits) :
    s.process = .running ∨ ∃ output err, s.process = .exited output err false := by
  cases m with
  | waitCmd c => exact nomatch h
  | cmd c =>
    obtain ⟨⟨_ | command⟩⟩ := c
    · exact nomatch h
    · cases hp : s.process with
      | absent =>
        rw [hp] at h
        exact nomatch h
      | running => exact .inl rfl
      | exited output err reaped =>
        cases reaped with
        | true =>
          rw [hp] at h
          exact nomatch h
        | false => exact .inr ⟨output, err, rfl⟩

theorem harmful_of_waiting (hc : s.caller = .waiting) (hd : ¬ s.Done)
    {output : GoString} {err : Option GoString} {reaped : Bool}
    (hp : s.process = .exited output err reaped) : Harmful m w T s := by
  have hwaited : step m w s .waited =
      some { s with process := .exited output err true, err := none, caller := .returning } := by
    simp [step, hp, hc, Process.reap]
  apply Harmful.of_step hwaited (timerIn_of_ne (by decide))
  apply harmful_of_nil
  · rfl
  · rfl
  · intro hex
    obtain ⟨⟨output', reaped', hsucc⟩, hall⟩ := hex
    obtain ⟨rfl, rfl, -⟩ := Process.exited.inj hsucc
    have hdone : s.Done := ⟨⟨output, reaped, hp⟩, by rw [hp]; exact hall⟩
    exact hd hdone

/-- The kill works; it may do so before the process printed anything. -/
theorem harmful_of_waits (hk : m.killAndWait w.killErr s.process = .waits)
    (hc : t.caller = .waiting) (hprocess : t.process = s.process) (hd : ¬ t.Done) :
    Harmful m w T t := by
  obtain hp | ⟨output, err, hp⟩ := unreaped_of_waits hk
  · rw [← hprocess] at hp
    have hdies : step m w t (.dies 0) =
        some { t with process := .exited [] (some w.killedErr) false } := by
      simp [step, hp, hc]
    apply Harmful.of_step hdies (timerIn_of_ne (by decide))
    apply harmful_of_waiting
    · exact hc
    · rintro ⟨⟨output, reaped, hsucc⟩, -⟩
      cases hsucc
    · rfl
  · exact harmful_of_waiting hc hd (hprocess.trans hp)

/-- The whole timer branch from a state that is not harmless. -/
theorem harmful_of_not_harmless (hs : Undecided w s) (hu : s.routine.Unwritten → s.written = [])
    (hc : s.caller = .selecting) (hx : s.expired = true) (hT : T s) (h : ¬ Harmless m w s) :
    Harmful m w T s := by
  obtain ⟨hd, hsafe⟩ := not_or.mp h
  have htimer : step m w s .takeTimer = some { s with caller := .killing } := by
    simp [step, hc, hx]
  apply Harmful.of_step htimer (fun _ => hT)
  cases hk : m.killAndWait w.killErr s.process with
  | waits =>
    have hkill : step m w { s with caller := .killing } .kill =
        some { s with caller := .waiting } := by
      simp [step, hk]
    apply Harmful.of_step hkill (timerIn_of_ne (by decide))
    exact harmful_of_waits hk rfl rfl hd
  | returns err =>
    have hkill : step m w { s with caller := .killing } .kill =
        some { s with err, caller := .returning } := by
      simp [step, hk]
    apply Harmful.of_step hkill (timerIn_of_ne (by decide))
    cases err with
    | none =>
      apply harmful_of_nil
      · rfl
      · rfl
      · exact hd
    | some e =>
      have hfails : KillFails m w s := ⟨e, hk⟩
      have hkeeps : ¬ KeepsErr w s := fun hkeeps => hsafe ⟨hfails, hkeeps⟩
      obtain ⟨hpending, hexit, hout⟩ :
          s.routine.Pending ∧ w.exitErr = none ∧ w.output ≠ [] := by
        simpa [KeepsErr] using hkeeps
      have hw : s.written = [] := by
        apply hu
        cases hr : s.routine <;> rw [hr] at hpending <;> trivial
      exact harmful_of_killFails hs hw rfl rfl rfl rfl hfails hpending hexit hout

end Continue

structure Known (w : World) (s : State) : Prop where
  unwritten : s.routine.Unwritten → s.written = []
  undecided : s.caller = .selecting → Undecided w s

theorem known_of_reachable {T : State → Prop} (hm : m.isSkipped = false)
    (h : Reachable (step m w) (TimerIn T) (init m) s) : Known w s := by
  have hI : ∀ s a t, Reachable (step m w) (TimerIn T) (init m) s → Known w s →
      step m w s a = some t → TimerIn T s a t → Known w t := by
    intro s a t _ hs hstep _
    have hmoves := moves_of_step hstep
    refine ⟨unwritten_of_moves hmoves hs.unwritten, fun ht => ?_⟩
    exact undecided_of_moves hmoves ht (hs.undecided (selecting_of_moves hmoves ht))
  have hinit : Known w (init m) := by
    refine ⟨fun _ => ?_, fun _ => undecided_init hm⟩
    simp [init, hm]
  exact Reachable.invariant hI hinit h

/-- For every command and every behaviour of the process, of the writer and of the kill,
under every interleaving: a nil error means that the command is done exactly where the
timer branch is taken in harmless states only. -/
theorem nil_error_iff {e : Env} {cmd : Command} {hookers : List Hooker}
    (hcmd : cmd ≠ nopCommand) (hnew : newCommand e cmd hookers = some m) (w : World)
    (T : State → Prop) :
    (∀ as, Along (step m w) (TimerIn T) (init m) as →
      Throughout (step m w) NilMeansDone (init m) as) ↔
    ∀ s, Reachable (step m w) (TimerIn T) (init m) s → s.caller = .selecting →
      s.expired = true → T s → Harmless m w s := by
  have hm : m.isSkipped = false := by
    rw [← Bool.not_eq_true, newCommand_isSkipped hnew]
    exact hcmd
  rw [Transition.forall_throughout_iff]
  constructor
  · intro h s hs hc hx hT
    obtain ⟨hu, hund⟩ := known_of_reachable hm hs
    by_contra hnot
    obtain ⟨t, ht, hbad⟩ := harmful_of_not_harmless (hund hc) hu hc hx hT hnot _ hs
    exact hbad (h t ht)
  · intro h t ht
    have hI : ∀ s a t, Reachable (step m w) (TimerIn T) (init m) s → Inv m w s →
        step m w s a = some t → TimerIn T s a t → Inv m w t := by
      intro s a t hreach hs hstep hT
      refine inv_step hs hstep fun ha => ?_
      subst ha
      obtain ⟨hc, hx⟩ : s.caller = .selecting ∧ s.expired = true := by
        cases moves_of_step hstep with
        | takesTimer hc hx => exact ⟨hc, hx⟩
      exact h s hreach hc hx (hT rfl)
    exact (Reachable.invariant hI (inv_init hm) ht).nilMeansDone

/-- Thirty samples, two seconds apart. -/
def jstat : Command :=
  [str "/bin/jstat", str "-gc", str "-t", str "1", str "2000", str "30"]

def jstatWorld : World where
  startErr := none
  output := str "Timestamp"
  exitErr := none
  killErr := none
  killedErr := str "signal: killed"
  waitErr := str "wait: no child processes"
  write := none

def jstatCmd : CmdManager :=
  .cmd ⟨⟨some ⟨str "/bin/jstat", [str "-gc", str "-t", str "1", str "2000", str "30"], none⟩⟩⟩

theorem nil_error_iff_jstat :
    (∀ as, Along (step jstatCmd jstatWorld) (TimerIn fun s => s.routine = .sending)
        (init jstatCmd) as →
      Throughout (step jstatCmd jstatWorld) NilMeansDone (init jstatCmd) as) ↔
    ∀ s, Reachable (step jstatCmd jstatWorld) (TimerIn fun s => s.routine = .sending)
        (init jstatCmd) s → s.caller = .selecting →
      s.expired = true → s.routine = .sending → Harmless jstatCmd jstatWorld s := by
  have hcmd : jstat ≠ nopCommand := by decide
  have hnew : newCommand ⟨[], []⟩ jstat [] = some jstatCmd := by decide
  exact nil_error_iff hcmd hnew jstatWorld _

/-- The killed command, then one that is not killed at all. -/
theorem timed_out_is_success :
    (newCommand ⟨[], []⟩ jstat [] = some jstatCmd ∧
      ∃ s, Transition.run (step jstatCmd jstatWorld) (init jstatCmd)
          [.start, .expire, .takeTimer, .kill, .dies 0, .waited, .ret] = some s ∧
        s.caller = .returned none ∧ ¬ NilMeansDone s) ∧
    ∃ m, newCommand ⟨[], []⟩ (waitCommand :: jstat) [] = some m ∧
      ∃ s, Transition.run (step m jstatWorld) (init m)
          [.start, .expire, .takeTimer, .kill, .ret] = some s ∧
        s.caller = .returned none ∧ ¬ NilMeansDone s := by
  refine ⟨⟨by decide, ?_⟩, _, rfl, ?_⟩
  · refine ⟨_, rfl, rfl, fun hnil => ?_⟩
    obtain ⟨output, reaped, hp⟩ := (hnil.toWriter rfl).1
    exact nomatch (Process.exited.inj hp).2.1
  · refine ⟨_, rfl, rfl, fun hnil => ?_⟩
    obtain ⟨output, reaped, hp⟩ := (hnil.toWriter rfl).1
    exact nomatch hp

end YcAgent.Executils.ToWriter
