import YcAgent.Base.Channel
import YcAgent.Base.Run
import YcAgent.Capture.JStack

/-!
# The channels of `JStack.Run`

The main loop hands the number of a round to two workers, one for the thread dump and one for
`top -H`, and waits for an answer of each. The first worker returns behind a round that it
cannot answer otherwise, and closes its answers. Any of the three may move next; whatever the
rounds come to, none of them waits for ever.
-/
namespace YcAgent.Capture.JStack.Channels

open Go Transition

/-- What the rounds come to: the errors that the workers send, and whether the worker of the
thread dumps stays for the next round. -/
structure Outcomes where
  dumpErr : Nat → Option GoString
  goesOn : Nat → Bool
  topHErr : Nat → Option GoString

def Outcomes.dump (o : Outcomes) (n : Nat) : Option GoString × Bool := (o.dumpErr n, o.goesOn n)

def Outcomes.topH (o : Outcomes) (n : Nat) : Option GoString × Bool := (o.topHErr n, true)

/-- Where the main loop is in its round `n`, or behind the loop. -/
inductive Main where
  | loop (n : Nat)
  | sendB2 (n : Nat)
  | sendB1 (n : Nat)
  | receiveE1 (n : Nat)
  | receiveE2 (n : Nat)
  | closeB1
  | closeB2
  | returned

/-- The channels `b1` and `e1` are those of the thread dumps, `b2` and `e2` those of `top -H`. -/
structure State where
  main : Main
  dump : Line Nat (Option GoString)
  topH : Line Nat (Option GoString)
  rounds : List Nat

inductive Action where
  | main
  | dump (a : LineAction)
  | topH (a : LineAction)

def init (count : Nat) : State := ⟨.loop 1, Line.make count, Line.make count, []⟩

/-- A step of the main loop; `rounds` are the rounds that it has completed. -/
def mainStep (count : Nat) (s : State) : Option State :=
  match s.main with
  | .loop n => some { s with main := if n ≤ count then .sendB2 n else .closeB1 }
  | .sendB2 n => (s.topH.ask n).map fun topH => { s with main := .sendB1 n, topH }
  | .sendB1 n => (s.dump.ask n).map fun dump => { s with main := .receiveE1 n, dump }
  | .receiveE1 n => s.dump.collect.map fun r => { s with main := .receiveE2 n, dump := r.2 }
  | .receiveE2 n => s.topH.collect.map fun r =>
      { s with main := .loop (n + 1), topH := r.2, rounds := s.rounds ++ [n] }
  | .closeB1 => s.dump.shut.map fun dump => { s with main := .closeB2, dump }
  | .closeB2 => s.topH.shut.map fun topH => { s with main := .returned, topH }
  | .returned => none

def step (o : Outcomes) (count : Nat) (s : State) : Action → Option State
  | .main => mainStep count s
  | .dump a => (s.dump.step o.dump a).map fun dump => { s with dump }
  | .topH a => (s.topH.step o.topH a).map fun topH => { s with topH }

/-- The main loop has completed its rounds and returned, `top -H` was run for each of them,
and both workers have ended behind the closing of their channels. -/
structure Completed (count : Nat) (s : State) : Prop where
  main : s.main = .returned
  rounds : s.rounds = List.range' 1 count
  topH : s.topH.log = List.range' 1 count
  b1 : s.dump.requests.closed = true
  b2 : s.topH.requests.closed = true
  dumpDone : s.dump.worker = .done
  topHDone : s.topH.worker = .done

/-! ## What the main loop has done -/

/-- The rounds that the main loop has handed to the worker of the thread dumps. -/
def Main.dumpAsked (count : Nat) : Main → Nat
  | .loop n | .sendB2 n | .sendB1 n => n - 1
  | .receiveE1 n | .receiveE2 n => n
  | .closeB1 | .closeB2 | .returned => count

def Main.dumpGot (count : Nat) : Main → Nat
  | .loop n | .sendB2 n | .sendB1 n | .receiveE1 n => n - 1
  | .receiveE2 n => n
  | .closeB1 | .closeB2 | .returned => count

def Main.topHAsked (count : Nat) : Main → Nat
  | .loop n | .sendB2 n => n - 1
  | .sendB1 n | .receiveE1 n | .receiveE2 n => n
  | .closeB1 | .closeB2 | .returned => count

/-- The rounds that the main loop has completed. -/
def Main.finished (count : Nat) : Main → Nat
  | .loop n | .sendB2 n | .sendB1 n | .receiveE1 n | .receiveE2 n => n - 1
  | .closeB1 | .closeB2 | .returned => count

/-- The number of a round is one of the rounds that there are, or the one behind them. -/
def Main.InRange (count : Nat) : Main → Prop
  | .loop n => 1 ≤ n ∧ n ≤ count + 1
  | .sendB2 n | .sendB1 n | .receiveE1 n | .receiveE2 n => 1 ≤ n ∧ n ≤ count
  | _ => True

def Main.b1Closed : Main → Bool
  | .closeB2 | .returned => true
  | _ => false

def Main.b2Closed : Main → Bool
  | .returned => true
  | _ => false

structure Inv (o : Outcomes) (count : Nat) (s : State) : Prop where
  inRange : s.main.InRange count
  rounds : s.rounds = List.range' 1 (s.main.finished count)
  dump : Line.Inv o.dump count (List.range' 1 (s.main.dumpAsked count)) (s.main.dumpGot count)
    s.dump
  topH : Line.Inv o.topH count (List.range' 1 (s.main.topHAsked count)) (s.main.finished count)
    s.topH
  b1 : s.dump.requests.closed = s.main.b1Closed
  b2 : s.topH.requests.closed = s.main.b2Closed

/-- The steps that the main loop can still take, with those of the workers for the rounds that
are not handed out. -/
def Main.left (count : Nat) : Main → Nat
  | .loop n => 11 * (count + 1 - n) + 3
  | .sendB2 n => 11 * (count + 1 - n) + 2
  | .sendB1 n => 11 * (count + 1 - n) - 2
  | .receiveE1 n => 11 * (count + 1 - n) - 6
  | .receiveE2 n => 11 * (count + 1 - n) - 7
  | .closeB1 => 2
  | .closeB2 => 1
  | .returned => 0

def State.left (count : Nat) (s : State) : Nat := s.main.left count + s.dump.left + s.topH.left

section Steps

variable {o : Outcomes} {count : Nat} {s t : State}

theorem inv_init (o : Outcomes) (count : Nat) : Inv o count (init count) where
  inRange := ⟨Nat.le_refl 1, Nat.succ_le_succ (Nat.zero_le _)⟩
  rounds := rfl
  dump := Line.inv_make o.dump count
  topH := Line.inv_make o.topH count
  b1 := rfl
  b2 := rfl

theorem range'_snoc {n : Nat} (hn : 1 ≤ n) :
    List.range' 1 (n - 1) ++ [n] = List.range' 1 n := by
  obtain ⟨k, rfl⟩ : ∃ k, n = k + 1 := ⟨n - 1, by omega⟩
  rw [Nat.add_sub_cancel, List.range'_concat, Nat.one_mul, Nat.add_comm 1 k]

/-- A step of the main loop keeps what it knows of the workers, and lowers what is left. -/
theorem inv_mainStep (h : Inv o count s) (hs : mainStep count s = some t) :
    Inv o count t ∧ t.left count < s.left count := by
  obtain ⟨main, dump, topH, rounds⟩ := s
  obtain ⟨hrange, hrounds, hdump, htopH, hb1, hb2⟩ := h
  cases main with
  | loop n =>
    obtain ⟨hpos, hle⟩ := hrange
    cases hs
    by_cases hn : n ≤ count
    · rw [if_pos hn]
      exact ⟨⟨⟨hpos, hn⟩, hrounds, hdump, htopH, hb1, hb2⟩, by
        simp only [State.left, Main.left]; omega⟩
    · have hlast : n - 1 = count := by omega
      simp only [Main.finished, Main.dumpAsked, Main.dumpGot, Main.topHAsked, hlast]
        at hrounds hdump htopH
      rw [if_neg hn]
      exact ⟨⟨trivial, hrounds, hdump, htopH, hb1, hb2⟩, by
        simp only [State.left, Main.left]; omega⟩
  | sendB2 n =>
    obtain ⟨hpos, hle⟩ := hrange
    obtain ⟨topH', hask, rfl⟩ := Option.map_eq_some_iff.mp hs
    have hlen : (List.range' 1 (n - 1)).length < count := by rw [List.length_range']; omega
    have hnew : Line.Inv o.topH count (List.range' 1 (n - 1) ++ [n]) (n - 1) topH' :=
      htopH.ask hlen hb2 hask
    rw [range'_snoc hpos] at hnew
    refine ⟨⟨⟨hpos, hle⟩, hrounds, hdump, hnew, hb1, (Line.closed_ask hask).trans hb2⟩, ?_⟩
    simp only [State.left, Main.left, Line.left_ask hask]
    omega
  | sendB1 n =>
    obtain ⟨hpos, hle⟩ := hrange
    obtain ⟨dump', hask, rfl⟩ := Option.map_eq_some_iff.mp hs
    have hlen : (List.range' 1 (n - 1)).length < count := by rw [List.length_range']; omega
    have hnew : Line.Inv o.dump count (List.range' 1 (n - 1) ++ [n]) (n - 1) dump' :=
      hdump.ask hlen hb1 hask
    rw [range'_snoc hpos] at hnew
    refine ⟨⟨⟨hpos, hle⟩, hrounds, hnew, htopH, (Line.closed_ask hask).trans hb1, hb2⟩, ?_⟩
    simp only [State.left, Main.left, Line.left_ask hask]
    omega
  | receiveE1 n =>
    obtain ⟨hpos, hle⟩ := hrange
    obtain ⟨⟨e, dump'⟩, hcollect, rfl⟩ := Option.map_eq_some_iff.mp hs
    have hlen : n - 1 < (List.range' 1 n).length := by rw [List.length_range']; omega
    have hnew : Line.Inv o.dump count (List.range' 1 n) (n - 1 + 1) dump' :=
      hdump.collect hlen hcollect
    rw [Nat.sub_add_cancel hpos] at hnew
    refine ⟨⟨⟨hpos, hle⟩, hrounds, hnew, htopH, (Line.closed_collect hcollect).trans hb1, hb2⟩, ?_⟩
    simp only [State.left, Main.left, Line.left_collect hcollect]
    omega
  | receiveE2 n =>
    obtain ⟨hpos, hle⟩ := hrange
    obtain ⟨⟨e, topH'⟩, hcollect, rfl⟩ := Option.map_eq_some_iff.mp hs
    have hlen : n - 1 < (List.range' 1 n).length := by rw [List.length_range']; omega
    have hnew : Line.Inv o.topH count (List.range' 1 n) (n - 1 + 1) topH' :=
      htopH.collect hlen hcollect
    rw [Nat.sub_add_cancel hpos] at hnew
    refine ⟨⟨⟨Nat.succ_pos n, Nat.succ_le_succ hle⟩, ?_, hdump, hnew, hb1,
      (Line.closed_collect hcollect).trans hb2⟩, ?_⟩
    · have hold : rounds = List.range' 1 (n - 1) := hrounds
      show rounds ++ [n] = List.range' 1 n
      rw [hold]
      exact range'_snoc hpos
    · simp only [State.left, Main.left, Line.left_collect hcollect]
      omega
  | closeB1 =>
    obtain ⟨dump', hshut, rfl⟩ := Option.map_eq_some_iff.mp hs
    refine ⟨⟨trivial, hrounds, hdump.shut hshut, htopH, Line.closed_shut hshut, hb2⟩, ?_⟩
    simp only [State.left, Main.left, Line.left_shut hshut]
    omega
  | closeB2 =>
    obtain ⟨topH', hshut, rfl⟩ := Option.map_eq_some_iff.mp hs
    refine ⟨⟨trivial, hrounds, hdump, htopH.shut hshut, hb1, Line.closed_shut hshut⟩, ?_⟩
    simp only [State.left, Main.left, Line.left_shut hshut]
    omega
  | returned => cases hs

theorem inv_step (h : Inv o count s) {a : Action} (hs : step o count s a = some t) :
    Inv o count t ∧ t.left count < s.left count := by
  cases a with
  | main => exact inv_mainStep h hs
  | dump a =>
    obtain ⟨dump, hstep, rfl⟩ := Option.map_eq_some_iff.mp hs
    refine ⟨{ h with dump := h.dump.step hstep, b1 := (Line.closed_step hstep).trans h.b1 }, ?_⟩
    have hlt := Line.left_step hstep
    simp only [State.left]
    omega
  | topH a =>
    obtain ⟨topH, hstep, rfl⟩ := Option.map_eq_some_iff.mp hs
    refine ⟨{ h with topH := h.topH.step hstep, b2 := (Line.closed_step hstep).trans h.b2 }, ?_⟩
    have hlt := Line.left_step hstep
    simp only [State.left]
    omega

/-- The main loop can move wherever the workers cannot, until it has returned. -/
theorem exists_mainStep (h : Inv o count s) (hdump : ∀ a, s.dump.step o.dump a = none)
    (htopH : ∀ a, s.topH.step o.topH a = none) (hmain : s.main ≠ .returned) :
    ∃ t, mainStep count s = some t := by
  obtain ⟨main, dump, topH, rounds⟩ := s
  obtain ⟨hrange, hrounds, hd, ht, hb1, hb2⟩ := h
  cases main with
  | loop n => exact ⟨_, rfl⟩
  | sendB2 n =>
    have hlen : (List.range' 1 (n - 1)).length < count := by
      rw [List.length_range']
      obtain ⟨hpos, hle⟩ := hrange
      omega
    obtain ⟨topH', hask⟩ := ht.exists_ask hlen hb2 n
    exact ⟨_, Option.map_eq_some_iff.mpr ⟨_, hask, rfl⟩⟩
  | sendB1 n =>
    have hlen : (List.range' 1 (n - 1)).length < count := by
      rw [List.length_range']
      obtain ⟨hpos, hle⟩ := hrange
      omega
    obtain ⟨dump', hask⟩ := hd.exists_ask hlen hb1 n
    exact ⟨_, Option.map_eq_some_iff.mpr ⟨_, hask, rfl⟩⟩
  | receiveE1 n =>
    have hlen : n - 1 < (List.range' 1 n).length := by
      rw [List.length_range']
      exact Nat.sub_lt hrange.1 Nat.one_pos
    obtain ⟨e, dump', hcollect⟩ := hd.exists_collect hlen hdump
    exact ⟨_, Option.map_eq_some_iff.mpr ⟨_, hcollect, rfl⟩⟩
  | receiveE2 n =>
    have hlen : n - 1 < (List.range' 1 n).length := by
      rw [List.length_range']
      exact Nat.sub_lt hrange.1 Nat.one_pos
    obtain ⟨e, topH', hcollect⟩ := ht.exists_collect hlen htopH
    exact ⟨_, Option.map_eq_some_iff.mpr ⟨_, hcollect, rfl⟩⟩
  | closeB1 =>
    obtain ⟨dump', hshut⟩ := Line.exists_shut hb1
    exact ⟨_, Option.map_eq_some_iff.mpr ⟨_, hshut, rfl⟩⟩
  | closeB2 =>
    obtain ⟨topH', hshut⟩ := Line.exists_shut hb2
    exact ⟨_, Option.map_eq_some_iff.mpr ⟨_, hshut, rfl⟩⟩
  | returned => exact absurd rfl hmain

/-- A state in which nothing can move is one in which everything is done. -/
theorem completed_of_stuck (h : Inv o count s) (hstuck : ∀ a, step o count s a = none) :
    Completed count s := by
  have hdump : ∀ a, s.dump.step o.dump a = none :=
    fun a => Option.map_eq_none_iff.mp (hstuck (.dump a))
  have htopH : ∀ a, s.topH.step o.topH a = none :=
    fun a => Option.map_eq_none_iff.mp (hstuck (.topH a))
  have hmain : s.main = .returned := by
    by_contra hne
    obtain ⟨t, ht⟩ := exists_mainStep h hdump htopH hne
    rw [show mainStep count s = none from hstuck .main] at ht
    cases ht
  have hb1 : s.dump.requests.closed = true := by rw [h.b1, hmain]; rfl
  have hb2 : s.topH.requests.closed = true := by rw [h.b2, hmain]; rfl
  have htopHDone := h.topH.done_of_stuck hb2 htopH
  have hlog := h.topH.log_eq_of_done htopHDone fun n => rfl
  have hrounds := h.rounds
  rw [hmain] at hlog hrounds
  exact ⟨hmain, hrounds, hlog, hb1, hb2, h.dump.done_of_stuck hb1 hdump, htopHDone⟩

theorem inv_run {as : List Action}
    (h : Transition.run (step o count) (init count) as = some s) : Inv o count s := by
  refine run_invariant (fun s a t hs hst => ?_) (inv_init o count) h
  exact (inv_step hs hst).1

theorem left_init (count : Nat) : (init count).left count = 11 * count + 7 := by
  show 11 * (count + 1 - 1) + 3 + (3 * 0 + 2) + (3 * 0 + 2) = _
  omega

/-- `top -H` is run in the order of the rounds, for each of them at most once. -/
theorem topH_log_prefix (h : Inv o count s) : s.topH.log <+: List.range' 1 count := by
  have hasked : s.main.topHAsked count ≤ count := by
    have hle := h.topH.asked_le
    rwa [List.length_range'] at hle
  have hlog : s.topH.log <+: List.range' 1 (s.main.topHAsked count) := by
    rw [← h.topH.history, List.append_assoc]
    exact List.prefix_append _ _
  refine hlog.trans ?_
  generalize s.main.topHAsked count = asked at hasked
  obtain ⟨k, rfl⟩ := Nat.le.dest hasked
  rw [← List.range'_append_1]
  exact List.prefix_append _ _

theorem trail_step (h : s.dump.Trail o.dump) {a : Action} (hs : step o count s a = some t) :
    t.dump.Trail o.dump := by
  obtain ⟨main, dump, topH, rounds⟩ := s
  cases a with
  | main =>
    cases main with
    | loop n => cases hs; exact h
    | sendB2 n => obtain ⟨topH', -, rfl⟩ := Option.map_eq_some_iff.mp hs; exact h
    | sendB1 n => obtain ⟨dump', hask, rfl⟩ := Option.map_eq_some_iff.mp hs; exact h.ask hask
    | receiveE1 n =>
      obtain ⟨⟨e, dump'⟩, hcollect, rfl⟩ := Option.map_eq_some_iff.mp hs
      exact h.collect hcollect
    | receiveE2 n => obtain ⟨⟨e, topH'⟩, -, rfl⟩ := Option.map_eq_some_iff.mp hs; exact h
    | closeB1 => obtain ⟨dump', hshut, rfl⟩ := Option.map_eq_some_iff.mp hs; exact h.shut hshut
    | closeB2 => obtain ⟨topH', -, rfl⟩ := Option.map_eq_some_iff.mp hs; exact h
    | returned => cases hs
  | dump a =>
    obtain ⟨dump', hstep, rfl⟩ := Option.map_eq_some_iff.mp hs
    exact h.step hstep
  | topH a => obtain ⟨topH', -, rfl⟩ := Option.map_eq_some_iff.mp hs; exact h

/-- Whatever the interleaving, the rounds in which a thread dump is tried are those of the rounds
one after the other. -/
theorem dump_log_eq {round : Nat → Round} {disk : Nat → Option GoString}
    (hgoesOn : ∀ n, o.goesOn n = ((round n).run (disk n)).goesOn) {as : List Action}
    (h : Transition.run (step o count) (init count) as = some s) (hs : Completed count s) :
    s.dump.log = triedRounds (JStack.run round disk count) := by
  have htrail : s.dump.Trail o.dump := by
    refine run_invariant (I := fun s => s.dump.Trail o.dump) (fun s a t htrail hst => ?_)
      (Line.trail_make o.dump count) h
    exact trail_step htrail hst
  have hinv := (inv_run h).dump
  rw [hs.main] at hinv
  have hlog := hinv.log_eq_take htrail hs.dumpDone
  rw [hlog, JStack.run, triedRounds_runRounds]
  simp only [Main.dumpAsked, Outcomes.dump, hgoesOn]

/-- No run blocks: it is of a bounded length, everything is done where nothing can move any
more, and every run can be gone on with to there. -/
theorem run_completes (o : Outcomes) (count : Nat) {as : List Action} {s : State}
    (h : Transition.run (step o count) (init count) as = some s) :
    as.length ≤ 11 * count + 7 ∧ s.topH.log <+: List.range' 1 count ∧
      ((∀ a, step o count s a = none) → Completed count s) ∧
      ∃ bs t, Transition.run (step o count) s bs = some t ∧ Completed count t := by
  have hstep : ∀ s a t, Inv o count s → step o count s a = some t →
      Inv o count t ∧ t.left count < s.left count := fun s a t hs hst => inv_step hs hst
  have hinv := inv_run h
  have hlen := length_add_le_of_decreasing hstep (inv_init o count) h
  rw [left_init] at hlen
  obtain ⟨bs, t, hrun, hend⟩ := exists_run_to_end hstep hinv
  have hall : Transition.run (step o count) (init count) (as ++ bs) = some t := by
    rw [run_append, h, Option.bind_some, hrun]
  exact ⟨by omega, topH_log_prefix hinv, completed_of_stuck hinv, bs, t, hrun,
    completed_of_stuck (inv_run hall) hend⟩

/-- The worker of the thread dumps returns behind the first round, the main loop goes on. -/
def returnsEarly : Outcomes where
  dumpErr _ := some (str "exit status 1")
  goesOn _ := false
  topHErr _ := none

def schedule : List Action :=
  [.main, .main, .main, .dump .take, .dump .work, .dump .reply, .main, .topH .take, .topH .work,
    .topH .reply, .main, .main, .main, .topH .take, .main, .dump .close, .main, .topH .work,
    .topH .reply, .main, .main, .main, .main, .topH .take, .topH .close]

theorem run_completes_returnsEarly : ∃ s,
    Transition.run (step returnsEarly 2) (init 2) schedule = some s ∧ Completed 2 s := by
  have hrun : Transition.run (step returnsEarly 2) (init 2) schedule = some _ := rfl
  refine ⟨_, hrun, (run_completes returnsEarly 2 hrun).2.2.1 fun a => ?_⟩
  rcases a with _ | a | a
  · rfl
  · cases a <;> rfl
  · cases a <;> rfl

/-- Where only `jhsdb` answers, the worker of the thread dumps is gone behind the first round. -/
theorem dump_log_eq_returnsEarly :
    ∃ s, Transition.run (step returnsEarly 2) (init 2) schedule = some s ∧
      s.dump.log = triedRounds (JStack.run (fun _ => onlyJhsdb) (fun _ => none) 2) := by
  have hgone : (onlyJhsdb.run none).goesOn = false := by decide
  have hrun : Transition.run (step returnsEarly 2) (init 2) schedule = some _ := rfl
  exact ⟨_, hrun, dump_log_eq (fun _ => hgone.symm) hrun ⟨rfl, rfl, rfl, rfl, rfl, rfl, rfl⟩⟩

end Steps

end YcAgent.Capture.JStack.Channels
