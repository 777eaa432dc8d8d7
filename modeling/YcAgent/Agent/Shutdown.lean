import YcAgent.Agent.Exclusion
import YcAgent.Base.WaitGroup

/-!
# The end of the agent

`Run` is left when it returns or when a signal comes, whatever its goroutines are at. `Shutdown`
then waits for `Wg` and removes the temp copy, and the process ends with all its goroutines.
With `DeferDelete` a `FullCapture` is counted from the making of its directory to the deferred
removal; a cycle of the M3 loop is not counted, only the captures in it are.
-/
namespace YcAgent.Agent.Shutdown

open Go

/-- Where the main goroutine is: in `runToCompletionOrSigterm`, in `Wg.Wait`, in
`RemoveFromTempPath`, and behind `os.Exit` or the return of `main`. -/
inductive Main where
  | running | waiting | removing | exited
  deriving DecidableEq

structure Process where
  state : State
  wg : WaitGroup
  counted : Actor → Bool
  main : Main

/-- The call of `FullCapture` that a capture is in. -/
def inner : Capture → Option Frame
  | .fullCapture f => some f
  | .runSingle _ nested => nested

/-- The call of `FullCapture` that a goroutine is in. -/
def frame (s : State) (a : Actor) : Option Frame :=
  match s.thread a with
  | .capturing c => inner c
  | _ => none

inductive Act where
  | go (a : Actor) (op : Op)
  | add (a : Actor)
  | done (a : Actor)
  | leave
  | waited
  | exit
  deriving DecidableEq

/-- `Wg.Add` is what the goroutine does next: its directory is made, or was there. -/
def addDue (o : Options) (p : Process) (a : Actor) : Bool :=
  let deferDelete : Bool := o .deferDelete
  deferDelete && !p.counted a && (frame p.state a).any fun f => f.stage ≠ .mkdir

/-- `Wg.Done` is what it does next: the removal is made. -/
def doneDue (p : Process) (a : Actor) : Bool := p.counted a && (frame p.state a).isNone

def step (o : Options) (p : Process) (act : Act) : Option Process :=
  if p.main = .exited then none
  else match act with
    | .go a op =>
      if addDue o p a || doneDue p a then none
      else (Agent.step o p.state (a, op)).map fun s => { p with state := s }
    | .add a =>
      if addDue o p a then
        some { p with wg := p.wg.add, counted := Function.update p.counted a true }
      else none
    | .done a =>
      if doneDue p a then p.wg.done.map fun n =>
        { p with wg := n, counted := Function.update p.counted a false }
      else none
    | .leave => if p.main = .running then some { p with main := .waiting } else none
    | .waited => if p.main = .waiting ∧ p.wg = 0 then some { p with main := .removing } else none
    | .exit => if p.main = .removing then some { p with main := .exited } else none

def Process.init (start : Start) : Process := ⟨start.state, 0, fun _ => false, .running⟩

/-- All that a step of the process can do. -/
inductive Moves (o : Options) (p : Process) : Act → Process → Prop where
  | go (a : Actor) (op : Op) {s : State} (hadd : addDue o p a = false)
      (hdone : doneDue p a = false) (hstep : Agent.step o p.state (a, op) = some s) :
      Moves o p (.go a op) { p with state := s }
  | add (a : Actor) (hdue : addDue o p a = true) :
      Moves o p (.add a) { p with wg := p.wg.add, counted := Function.update p.counted a true }
  | done (a : Actor) {n : WaitGroup} (hdue : doneDue p a = true) (hn : p.wg.done = some n) :
      Moves o p (.done a) { p with wg := n, counted := Function.update p.counted a false }
  | leave (hmain : p.main = .running) : Moves o p .leave { p with main := .waiting }
  | waited (hmain : p.main = .waiting) (hwg : p.wg = 0) :
      Moves o p .waited { p with main := .removing }
  | exit (hmain : p.main = .removing) : Moves o p .exit { p with main := .exited }

theorem moves_of_step {o : Options} {p q : Process} {act : Act} (h : step o p act = some q) :
    p.main ≠ .exited ∧ Moves o p act q := by
  unfold step at h
  split at h
  · cases h
  · rename_i hmain
    refine ⟨hmain, ?_⟩
    cases act with
    | go a op =>
      dsimp only at h
      split at h
      · cases h
      · rename_i hdue
        rw [Bool.not_eq_true, Bool.or_eq_false_iff] at hdue
        obtain ⟨s, hs, rfl⟩ := Option.map_eq_some_iff.mp h
        exact .go a op hdue.1 hdue.2 hs
    | add a =>
      obtain ⟨hdue, h⟩ := (Option.ite_none_right_eq_some).mp h
      obtain rfl := Option.some.inj h
      exact .add a hdue
    | done a =>
      obtain ⟨hdue, h⟩ := (Option.ite_none_right_eq_some).mp h
      obtain ⟨n, hn, rfl⟩ := Option.map_eq_some_iff.mp h
      exact .done a hdue hn
    | leave =>
      obtain ⟨hmain, h⟩ := (Option.ite_none_right_eq_some).mp h
      obtain rfl := Option.some.inj h
      exact .leave hmain
    | waited =>
      obtain ⟨hmain, h⟩ := (Option.ite_none_right_eq_some).mp h
      obtain rfl := Option.some.inj h
      exact .waited hmain.1 hmain.2
    | exit =>
      obtain ⟨hmain, h⟩ := (Option.ite_none_right_eq_some).mp h
      obtain rfl := Option.some.inj h
      exact .exit hmain

/-! ## The calls of `FullCapture` -/

/-- What a capture step does to the call inside: nothing, or it begins one, or takes a step
of it. -/
theorem inner_step {o : Options} {w w' : World} {c : Capture} {c' : Option Capture} {op : Op}
    (h : c.step o w op = some (w', c')) :
    (inner c = none ∧ (∃ f g, c = .runSingle f g) ∧ ∀ d, c' = some d → inner d = none ∨
      ∃ timestamp home, inner d = some (fullCapture o timestamp home)) ∨
    ∃ f f', inner c = some f ∧ f.step o w op = some (w', f') ∧ c'.bind inner = f' := by
  unfold Capture.step at h
  split at h
  · obtain ⟨⟨w₁, f'⟩, hf, hr⟩ := Option.map_eq_some_iff.mp h
    obtain ⟨rfl, rfl⟩ := Prod.mk.inj hr
    refine Or.inr ⟨_, f', rfl, hf, ?_⟩
    cases f' <;> rfl
  · obtain ⟨⟨w₁, g'⟩, hg, hr⟩ := Option.map_eq_some_iff.mp h
    obtain ⟨rfl, rfl⟩ := Prod.mk.inj hr
    exact Or.inr ⟨_, g', rfl, hg, rfl⟩
  · split at h
    · obtain ⟨rfl, rfl⟩ := Prod.mk.inj (Option.some.inj h)
      refine Or.inl ⟨rfl, ⟨_, _, rfl⟩, fun d hd => Or.inl ?_⟩
      obtain rfl := Option.some.inj hd
      rfl
    · cases h
  · rename_i f timestamp
    split at h
    · obtain ⟨rfl, rfl⟩ := Prod.mk.inj (Option.some.inj h)
      refine Or.inl ⟨rfl, ⟨_, _, rfl⟩, fun d hd => ?_⟩
      obtain rfl := Option.some.inj hd
      show processPid o timestamp f.home = none ∨
        ∃ timestamp' home, processPid o timestamp f.home = some (fullCapture o timestamp' home)
      unfold processPid
      split
      · exact Or.inl rfl
      · exact Or.inr ⟨timestamp, f.home, rfl⟩
    · cases h
  · obtain ⟨⟨w₁, f'⟩, hf, hr⟩ := Option.map_eq_some_iff.mp h
    obtain ⟨rfl, rfl⟩ := Prod.mk.inj hr
    refine Or.inl ⟨rfl, ⟨_, _, rfl⟩, fun d hd => Or.inl ?_⟩
    obtain ⟨g, -, rfl⟩ := Option.map_eq_some_iff.mp hd
    rfl

/-- Where the goroutine is in a cycle of the M3 loop. -/
def InCycle (s : State) (a : Actor) : Prop := ∃ f g, s.thread a = .capturing (.runSingle f g)

/-- How a step of a goroutine changes the call that it is in. -/
inductive Turn (o : Options) (s t : State) (a : Actor) (op : Op) : Prop where
  | same (h : frame t a = frame s a) (hworld : t.world = s.world ∨ InCycle s a)
  | begin (timestamp : GoString) (home : Option Nat) (hnone : frame s a = none)
      (h : frame t a = some (fullCapture o timestamp home))
      (hworld : home = none ∧ t.world = s.world ∨ InCycle s a)
  | turn (f : Frame) (hf : frame s a = some f)
      (h : f.step o s.world op = some (t.world, frame t a))

theorem frame_set_of_ne {s : State} {a b : Actor} (t : Thread) (h : b ≠ a) :
    frame (s.set a t) b = frame s b := by
  rw [frame, frame, State.thread_set_of_ne s t h]

/-- The capture that a goroutine begins is outside any call, or at the beginning of one. -/
theorem inner_begins {o : Options} {timestamp : GoString} {a : Actor} {c : Capture}
    (h : begins o timestamp a = some c) :
    inner c = none ∨ inner c = some (fullCapture o timestamp none) := by
  cases a with
  | m3 =>
    obtain rfl := Option.some.inj h
    exact Or.inl rfl
  | request n =>
    obtain ⟨f, hf, rfl⟩ := Option.map_eq_some_iff.mp h
    unfold processPid at hf
    split at hf
    · cases hf
    · exact Or.inr hf.symm
  | onDemand =>
    obtain rfl := Option.some.inj h
    exact Or.inr rfl

theorem frame_set_after (s : State) (a : Actor) (c : Capture) (c' : Option Capture) :
    frame (s.set a (c'.elim c.after .capturing)) a = c'.bind inner := by
  rw [frame, State.thread_set_self]
  cases c' with
  | none => cases c <;> rfl
  | some d => rfl

theorem turn_of_step {o : Options} {s t : State} {a : Actor} {op : Op}
    (h : Agent.step o s (a, op) = some t) :
    Turn o s t a op ∧ ∀ b, b ≠ a → frame t b = frame s b := by
  unfold Agent.step at h
  dsimp only at h
  split at h
  · split at h
    · rename_i n hthread
      split at h
      · cases h
      · obtain rfl := Option.some.inj h
        refine ⟨.same ?_ (Or.inl rfl), fun b hb => frame_set_of_ne _ hb⟩
        rw [frame, frame, State.thread_set_self, hthread]
    · rename_i hthread
      split at h
      · cases h
      · obtain rfl := Option.some.inj h
        refine ⟨.same ?_ (Or.inl rfl), fun b hb => frame_set_of_ne _ hb⟩
        rw [frame, frame, State.thread_set_self, hthread]
    · rename_i a _ _ _ timestamp _ hthread
      have hnone : frame s a = none := by rw [frame, hthread]
      split at h
      · rename_i c hbegins
        obtain rfl := Option.some.inj h
        refine ⟨?_, fun b hb => frame_set_of_ne _ hb⟩
        rcases inner_begins hbegins with hinner | hinner
        · refine .same ?_ (Or.inl rfl)
          rw [frame, State.thread_set_self, hnone]
          exact hinner
        · refine .begin timestamp none hnone ?_ (Or.inl ⟨rfl, rfl⟩)
          rw [frame, State.thread_set_self]
          exact hinner
      · obtain rfl := Option.some.inj h
        exact ⟨.same rfl (Or.inl rfl), fun b _ => rfl⟩
    · rename_i op a _ _ _ c _ hthread
      obtain ⟨⟨w, c'⟩, hc, rfl⟩ := Option.map_eq_some_iff.mp h
      refine ⟨?_, fun b hb => frame_set_of_ne _ hb⟩
      have hs : frame s a = inner c := by rw [frame, hthread]
      have ht : frame ({ s with world := w }.set a (c'.elim c.after .capturing)) a =
          c'.bind inner := frame_set_after _ _ _ _
      rcases inner_step hc with ⟨hnone, ⟨f, g, rfl⟩, hnext⟩ | ⟨f, f', hf, hstep, hf'⟩
      · have hcycle : InCycle s a := ⟨f, g, hthread⟩
        cases c' with
        | none => exact .same (ht.trans (hs.trans hnone).symm) (Or.inr hcycle)
        | some d =>
          rcases hnext d rfl with hd | ⟨timestamp, home, hd⟩
          · exact .same (ht.trans (hd.trans (hs.trans hnone).symm)) (Or.inr hcycle)
          · exact .begin timestamp home (hs.trans hnone) (ht.trans hd) (Or.inr hcycle)
      · refine .turn f (hs.trans hf) ?_
        rw [ht, hf']
        exact hstep
    · rename_i n hthread
      obtain rfl := Option.some.inj h
      refine ⟨.same ?_ (Or.inl rfl), fun b hb => frame_set_of_ne _ hb⟩
      rw [frame, frame, State.thread_set_self, hthread]
    · rename_i hthread
      obtain rfl := Option.some.inj h
      refine ⟨.same ?_ (Or.inl rfl), fun b hb => frame_set_of_ne _ hb⟩
      rw [frame, frame, State.thread_set_self, hthread]
    · cases h
  · cases h

/-! ## What is counted -/

/-- With `DeferDelete` a call that is not counted has made its directory at most. -/
def Early (p : Process) : Prop :=
  ∀ a f, frame p.state a = some f → p.counted a = false → f.stage = .mkdir ∨ f.stage = .getwd

structure Inv (p : Process) : Prop where
  counts : WaitGroup.Counts p.wg p.counted
  early : Early p

theorem inv_init (start : Start) : Inv (Process.init start) := by
  refine ⟨WaitGroup.counts_empty, fun a f hf => ?_⟩
  cases a <;> cases hf

theorem stage_enter (o : Options) (timestamp : GoString) (home : Option Nat) :
    (fullCapture o timestamp home).stage = .mkdir ∨
      (fullCapture o timestamp home).stage = .getwd := by
  rw [fullCapture, Frame.enter]
  cases m3Mode o with
  | false => exact Or.inl rfl
  | true => exact Or.inr rfl

/-- The making of the directory comes before the way to it, or is the end of the call. -/
theorem stage_mkdir {o : Options} {w w' : World} {f g : Frame} {op : Op}
    (hstage : f.stage = .mkdir) (h : f.step o w op = some (w', some g)) : g.stage = .getwd := by
  have hmoves := Frame.moves_of_step h
  generalize hf' : some g = f' at hmoves
  cases hmoves with
  | mkdir _ _ => rw [Option.some.inj hf']
  | ended _ => cases hf'
  | getwd hother _ | chdir hother _ | write hother _ | chdirBack hother _ | remove hother =>
    cases hstage.symm.trans hother
  | ret hother => simp [hstage] at hother
  | failed hother => simp [hstage] at hother

theorem inv_step {o : Options} (hdelete : (o .deferDelete : Bool) = true) {p q : Process}
    {act : Act} (hp : Inv p) (h : step o p act = some q) : Inv q := by
  obtain ⟨-, hmoves⟩ := moves_of_step h
  cases hmoves with
  | @go a op s hadd hdone hstep =>
    refine ⟨hp.counts, fun b f hf hb => ?_⟩
    obtain ⟨hturn, hother⟩ := turn_of_step hstep
    by_cases hba : b = a
    · subst hba
      cases hturn with
      | same hsame _ => exact hp.early b f (hsame ▸ hf) hb
      | begin timestamp home _ hbegin _ =>
        rw [Option.some.inj (hf.symm.trans hbegin)]
        exact stage_enter o timestamp home
      | turn g hg hturn =>
        -- a call that is not counted makes its directory: anything else waits for `Wg.Add`
        have hmkdir : g.stage = .mkdir := by
          rw [addDue, hdelete, hg] at hadd
          simpa [show p.counted b = false from hb] using hadd
        rw [hf] at hturn
        exact Or.inr (stage_mkdir hmkdir hturn)
    · exact hp.early b f (hother b hba ▸ hf) hb
  | add a hdue =>
    have ha : p.counted a = false := by
      rw [addDue, hdelete, Bool.and_eq_true, Bool.true_and, Bool.not_eq_true'] at hdue
      exact hdue.1
    refine ⟨hp.counts.add ha, fun b f hf hb => hp.early b f hf ?_⟩
    by_cases hba : b = a
    · exact hba ▸ ha
    · exact (Function.update_of_ne hba _ _).symm.trans hb
  | done a hdue hn =>
    rw [doneDue, Bool.and_eq_true, Option.isNone_iff_eq_none] at hdue
    refine ⟨hp.counts.done hdue.1 hn, fun b f hf hb => ?_⟩
    by_cases hba : b = a
    · subst hba
      cases hdue.2.symm.trans hf
    · exact hp.early b f hf ((Function.update_of_ne hba _ _).symm.trans hb)
  | leave hmain => exact ⟨hp.counts, hp.early⟩
  | waited hmain hwg => exact ⟨hp.counts, hp.early⟩
  | exit hmain => exact ⟨hp.counts, hp.early⟩

/-- The states of the process, whatever the order of its steps. -/
def Reaches (o : Options) (start : Start) (p : Process) : Prop :=
  Transition.Reachable (step o) (fun _ _ _ => True) (Process.init start) p

theorem inv_of_reaches {o : Options} (hdelete : (o .deferDelete : Bool) = true) {start : Start}
    {p : Process} (h : Reaches o start p) : Inv p :=
  Transition.Reachable.invariant (fun _ _ _ _ hp hstep _ => inv_step hdelete hp hstep)
    (inv_init start) h

/-- Nobody is between `Wg.Add` and `Wg.Done`. -/
theorem none_counted_of_waited {o : Options} {p q : Process} (hp : Inv p)
    (h : step o p .waited = some q) (a : Actor) : p.counted a = false := by
  obtain ⟨-, hmoves⟩ := moves_of_step h
  cases hmoves with
  | waited _ hwg => exact hp.counts.eq_zero_iff.mp hwg a

/-- Before `Wait` has returned. -/
def Main.Waits (m : Main) : Prop := m = .running ∨ m = .waiting

/-- Until a call that is counted is done, `Wait` does not return. -/
theorem waits_of_counted {o : Options} (hdelete : (o .deferDelete : Bool) = true) {a : Actor}
    {p q : Process} {acts : List Act} (hp : Inv p) (ha : p.counted a = true)
    (hmain : p.main.Waits) (hrun : Transition.run (step o) p acts = some q)
    (hnot : Act.done a ∉ acts) : q.counted a = true ∧ q.main.Waits := by
  have hstep : ∀ p act q, (Inv p ∧ p.counted a = true ∧ p.main.Waits) → step o p act = some q →
      act ≠ .done a → Inv q ∧ q.counted a = true ∧ q.main.Waits := by
    intro p act q hI hs hact
    obtain ⟨hp, ha, hmain⟩ := hI
    refine ⟨inv_step hdelete hp hs, ?_⟩
    obtain ⟨-, hmoves⟩ := moves_of_step hs
    cases hmoves with
    | go b op _ _ _ => exact ⟨ha, hmain⟩
    | add b _ =>
      refine ⟨?_, hmain⟩
      by_cases hab : a = b
      · exact hab ▸ Function.update_self ..
      · exact (Function.update_of_ne hab _ _).trans ha
    | done b _ _ =>
      have hab : a ≠ b := fun heq => hact (heq ▸ rfl)
      exact ⟨(Function.update_of_ne hab _ _).trans ha, hmain⟩
    | leave _ => exact ⟨ha, Or.inr rfl⟩
    | waited _ _ => exact absurd ha (Bool.eq_false_iff.mp (none_counted_of_waited hp hs a))
    | exit hremoving => rcases hmain with hmain | hmain <;> cases hmain.symm.trans hremoving
  have hacts : ∀ act ∈ acts, act ≠ .done a := fun act hact heq => hnot (heq ▸ hact)
  exact (Transition.run_invariant_along hstep ⟨hp, ha, hmain⟩
    (Transition.along_of_forall_mem _ hacts p) hrun).2

/-- `Wait` returns once. -/
theorem waits_of_run {o : Options} {p q : Process} {acts : List Act}
    (hrun : Transition.run (step o) p acts = some q) (hq : q.main.Waits) : p.main.Waits := by
  by_contra hp
  have hstep : ∀ p act q, ¬ p.main.Waits → step o p act = some q → ¬ q.main.Waits := by
    intro p act q hp hs
    obtain ⟨-, hmoves⟩ := moves_of_step hs
    cases hmoves with
    | go b op _ _ _ => exact hp
    | add b _ => exact hp
    | done b _ _ => exact hp
    | leave hmain => exact absurd (Or.inl hmain) hp
    | waited hmain _ => exact absurd (Or.inr hmain) hp
    | exit _ => exact fun h => by rcases h with h | h <;> cases h
  exact Transition.run_invariant hstep hp hrun hq

/-- A call that makes its `Wg.Done` was counted, so the counter has something to take away. -/
theorem exists_done {o : Options} {p : Process} (hp : Inv p) {a : Actor}
    (hmain : p.main ≠ .exited) (hdue : doneDue p a = true) : ∃ q, step o p (.done a) = some q := by
  have hcounted : p.counted a = true := by
    rw [doneDue, Bool.and_eq_true] at hdue
    exact hdue.1
  obtain ⟨n, hn, -⟩ := hp.counts.exists_done hcounted
  simp only [step, if_neg hmain, if_pos hdue, hn, Option.map_some]
  exact ⟨_, rfl⟩

/-- On demand with `-deferDelete`. -/
def onDemandDeleting : Options :=
  Function.update (Function.update defaultOptions .pid (str "1")) .deferDelete true

/-- A capture makes its directory and is counted. -/
def countedActs : List Act :=
  [.go .onDemand (.enter newYear), .go .onDemand (.call true), .add .onDemand]

/-- It goes to its directory and back and removes it, after the agent was told to end. -/
def finishingActs : List Act :=
  [.go .onDemand (.call true), .leave, .go .onDemand (.call true), .go .onDemand .ret,
   .go .onDemand (.call true), .go .onDemand (.call true), .done .onDemand]

end YcAgent.Agent.Shutdown
