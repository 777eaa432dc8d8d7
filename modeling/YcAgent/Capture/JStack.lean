import Mathlib.Data.UInt
import YcAgent.Base.Handle
import YcAgent.Base.Scanner
import YcAgent.Capture.ThreadDump

/-!
# The attempts at a thread dump

A round tries one way after the other to get a thread dump into its file. The chain is driven
by whether there is a file yet: `jstack -F` opens the file itself, so behind it there always is
one, and where it fails the worker returns. Two tests read a variable that the worker of
`top -H` assigns too; where that comes in between they see its error instead.

There is no clock here: a command that is killed because its minute is over is one that fails
with what it has printed by then.
-/
namespace YcAgent.Capture.JStack

open Go

/-- The ways to get a thread dump, in their order. -/
inductive Attempt where
  | jstack
  | jattach
  | jattachTemp
  | jstackF
  | jhsdb
  deriving DecidableEq

def chain : List Attempt := [.jstack, .jattach, .jattachTemp, .jstackF, .jhsdb]

/-- A command, with what it prints and whether its error is nil. -/
structure CommandRun where
  output : GoString
  ok : Bool

/-- A command with its output in a file that is created for it. -/
structure FileAttempt extends DumpAttempt where
  output : GoString

/-- The file with its first line: whether it is created, what the test of the error sees where
it is not this error, and how much of the line is written where that fails. -/
structure Opening where
  creates : Bool
  stray : Option Bool
  writeErr : Option Nat

/-- What `JStackF.Run` runs: `jstack -F`, and `jattach` where it fails. -/
structure JStackF where
  seeks : Bool
  seeksAgain : Bool
  jstack : CommandRun
  jattach : CommandRun

structure Round where
  jstack : FileAttempt
  jattach : FileAttempt
  copy2TempPath : Bool
  jattachTemp : FileAttempt
  opening : Opening
  jstackF : JStackF
  /-- What the test behind `jstack -F` sees where it is not its error. -/
  stray : Option Bool
  openingJhsdb : Opening
  jhsdb : CommandRun

/-- What the worker has in a round: what it tried, `jstackFile`, and what is on the disk. -/
structure RoundState where
  tried : List Attempt
  jstackFile : Option (Handle Byte)
  disk : Option GoString

/-- `CommandCombinedOutputToFile`, where there is no file yet. The file stays on the disk where
the command fails. -/
def RoundState.attempt (s : RoundState) (name : Attempt) (a : FileAttempt) : RoundState :=
  if s.jstackFile.isSome then s
  else if a.creates then
    let file := Handle.create.write a.output
    ⟨s.tried ++ [name], if a.ok then some file else none, some file.content⟩
  else { s with tried := s.tried ++ [name] }

def header : GoString := str "\nFull thread dump\n"

/-- Creates the file and writes the first line; an error is where the worker returns. -/
def Opening.run (o : Opening) (name : Attempt) (s : RoundState) :
    Except RoundState (Handle Byte) :=
  let tried := s.tried ++ [name]
  let file := if o.creates then some Handle.create else none
  let disk := if o.creates then some [] else s.disk
  if o.stray.getD (!o.creates) then .error ⟨tried, file, disk⟩
  else
    match file with
    -- writing to a file that is nil is an error
    | none => .error ⟨tried, none, disk⟩
    | some file =>
      match o.writeErr with
      | some n => .error ⟨tried, some file, some (header.take n)⟩
      | none => .ok (file.write header)

/-- `JStackF.Run`, with whether it returns an error. -/
def JStackF.run (f : JStackF) (file : Handle Byte) : Bool × Handle Byte :=
  if f.seeks = false then (true, file)
  else
    let i := min (scannedLines file.content).length 6
    let file := file.seekStart.readAll.2
    if i ≤ 5 then
      if f.seeksAgain = false then (true, file)
      else
        let file := file.seekStart.write f.jstack.output
        if f.jstack.ok then (false, file)
        else (!f.jattach.ok, file.write f.jattach.output)
    else (false, file)

def Round.tryJStackF (r : Round) (s : RoundState) : Except RoundState RoundState :=
  if s.jstackFile.isSome then .ok s
  else do
    let file ← r.opening.run .jstackF s
    let (err, file) := r.jstackF.run file
    let s := ⟨s.tried ++ [.jstackF], some file, some file.content⟩
    if r.stray.getD err then .error s else .ok s

def Round.tryJhsdb (r : Round) (s : RoundState) : Except RoundState RoundState :=
  if s.jstackFile.isSome then .ok s
  else do
    let file ← r.openingJhsdb.run .jhsdb s
    let file := file.write r.jhsdb.output
    return ⟨s.tried ++ [.jhsdb], some file, some file.content⟩

/-- The attempts that do not open the file themselves. -/
def Round.attach (r : Round) (disk : Option GoString) : RoundState :=
  let s := (RoundState.mk [] none disk).attempt .jstack r.jstack
  let s := s.attempt .jattach r.jattach
  if r.copy2TempPath then s.attempt .jattachTemp r.jattachTemp
  else s.attempt .jattachTemp { r.jattachTemp with creates := false }

/-- A round behind its end: what was tried, what its file holds, and whether the worker is
there for the next one. -/
structure RoundEnd where
  tried : List Attempt
  file : Option GoString
  goesOn : Bool

def Round.run (r : Round) (disk : Option GoString) : RoundEnd :=
  match r.tryJStackF (r.attach disk) >>= r.tryJhsdb with
  | .ok s => ⟨s.tried, s.disk, true⟩
  | .error s => ⟨s.tried, s.disk, false⟩

/-- The rounds `ns`, with what their files hold before; a worker that returned does nothing in
the rounds that are left. -/
def runRounds (round : Nat → Round) (disk : Nat → Option GoString) :
    List Nat → Bool → List (Nat × RoundEnd)
  | [], _ => []
  | n :: ns, true =>
    let e := (round n).run (disk n)
    (n, e) :: runRounds round disk ns e.goesOn
  | n :: ns, false => (n, ⟨[], disk n, false⟩) :: runRounds round disk ns false

def run (round : Nat → Round) (disk : Nat → Option GoString) (count : Nat) :
    List (Nat × RoundEnd) :=
  runRounds round disk (List.range' 1 count) true

/-! ## The chain -/

def Opening.ok (o : Opening) : Bool := o.creates && o.stray != some true && o.writeErr.isNone

def JStackF.ok (f : JStackF) : Bool := f.seeks && f.seeksAgain && (f.jstack.ok || f.jattach.ok)

def JStackF.output (f : JStackF) : GoString :=
  f.jstack.output ++ if f.jstack.ok then [] else f.jattach.output

def Round.succeeds (r : Round) : Attempt → Bool
  | .jstack => r.jstack.done
  | .jattach => r.jattach.done
  | .jattachTemp => r.copy2TempPath && r.jattachTemp.done
  | .jstackF => r.opening.ok && r.jstackF.ok
  | .jhsdb => r.openingJhsdb.ok && r.jhsdb.ok

/-- What an attempt prints. -/
def Round.output (r : Round) : Attempt → GoString
  | .jstack => r.jstack.output
  | .jattach => r.jattach.output
  | .jattachTemp => r.jattachTemp.output
  | .jstackF => r.jstackF.output
  | .jhsdb => r.jhsdb.output

/-- The attempts up to the first one that succeeds, or all of them. -/
def triedUntil (p : Attempt → Bool) (attempts : List Attempt) : List Attempt :=
  attempts.take (attempts.findIdx p + 1)

/-- The round was tried to the end of the chain, and its file holds the output of the first
attempt that succeeds. -/
structure Round.TriedToTheEnd (r : Round) (e : RoundEnd) : Prop where
  tried : e.tried = triedUntil r.succeeds chain
  file : ∀ a, chain.find? r.succeeds = some a → e.file = some (r.output a)

/-- One of the attempts before `jstack -F` succeeds. -/
def Round.attached (r : Round) : Bool :=
  r.succeeds .jstack || r.succeeds .jattach || r.succeeds .jattachTemp

/-- An attempt before `jstack -F` succeeds, or `jstack -F` does and what it prints covers the
line that stands in the file before. -/
def Round.Answered (r : Round) : Prop :=
  r.attached = true ∨ (r.succeeds .jstackF = true ∧ header.length ≤ r.jstackF.output.length)

/-- The worker takes no error of `top -H` for one of `jstack -F`. -/
def Round.Undisturbed (r : Round) : Prop := r.attached = true ∨ r.stray ≠ some true

/-! ## One attempt -/

section Attempts

variable {s : RoundState} {a : FileAttempt}

theorem attempt_of_file (h : s.jstackFile.isSome = true) (name : Attempt) (a : FileAttempt) :
    s.attempt name a = s := if_pos h

theorem attempt_done (hnone : s.jstackFile = none) (hdone : a.done = true) (name : Attempt) :
    s.attempt name a =
      ⟨s.tried ++ [name], some (Handle.create.write a.output), some a.output⟩ := by
  obtain ⟨hcreates, hok⟩ := Bool.and_eq_true_iff.mp hdone
  simp [RoundState.attempt, hnone, hcreates, hok, Handle.content_write_create]

theorem attempt_failed (hnone : s.jstackFile = none) (hdone : a.done = false) (name : Attempt) :
    ∃ disk, s.attempt name a = ⟨s.tried ++ [name], none, disk⟩ := by
  cases hcreates : a.creates with
  | false => exact ⟨s.disk, by simp [RoundState.attempt, hnone, hcreates]⟩
  | true =>
    have hok : a.ok = false := by
      rw [DumpAttempt.done, hcreates, Bool.true_and] at hdone
      exact hdone
    refine ⟨some a.output, ?_⟩
    simp [RoundState.attempt, hnone, hcreates, hok, Handle.content_write_create]

end Attempts

section Round

variable {r : Round}

/-- What the attempt at a copy comes to. -/
def Round.viaTemp (r : Round) : FileAttempt :=
  if r.copy2TempPath then r.jattachTemp else { r.jattachTemp with creates := false }

theorem done_viaTemp (r : Round) : r.viaTemp.done = r.succeeds .jattachTemp := by
  unfold Round.viaTemp Round.succeeds
  cases r.copy2TempPath <;> rfl

theorem output_viaTemp (r : Round) : r.viaTemp.output = r.output .jattachTemp := by
  unfold Round.viaTemp Round.output
  cases r.copy2TempPath <;> rfl

theorem attach_eq (r : Round) (disk : Option GoString) :
    r.attach disk = (((RoundState.mk [] none disk).attempt .jstack r.jstack).attempt .jattach
      r.jattach).attempt .jattachTemp r.viaTemp := by
  unfold Round.attach Round.viaTemp
  cases r.copy2TempPath <;> rfl

/-- An attempt that succeeds leaves its output in the file and is the last one. -/
theorem attach_of_attached (h : r.attached = true) (disk : Option GoString) :
    ∃ a, chain.find? r.succeeds = some a ∧ r.attach disk =
      ⟨triedUntil r.succeeds chain, some (Handle.create.write (r.output a)),
        some (r.output a)⟩ := by
  rw [attach_eq]
  by_cases hjstack : r.succeeds .jstack = true
  · refine ⟨.jstack, by simp [chain, hjstack], ?_⟩
    rw [attempt_done rfl hjstack, attempt_of_file rfl, attempt_of_file rfl]
    simp [triedUntil, chain, hjstack, Round.output, List.findIdx_cons]
  · rw [Bool.not_eq_true] at hjstack
    obtain ⟨d₁, hfirst⟩ := attempt_failed (s := ⟨[], none, disk⟩) rfl hjstack .jstack
    rw [hfirst]
    by_cases hjattach : r.succeeds .jattach = true
    · refine ⟨.jattach, by simp [chain, hjstack, hjattach], ?_⟩
      rw [attempt_done rfl hjattach, attempt_of_file rfl]
      simp [triedUntil, chain, hjstack, hjattach, Round.output, List.findIdx_cons]
    · rw [Bool.not_eq_true] at hjattach
      obtain ⟨d₂, hsecond⟩ :=
        attempt_failed (s := ⟨[] ++ [.jstack], none, d₁⟩) rfl hjattach .jattach
      rw [hsecond]
      have htemp : r.succeeds .jattachTemp = true := by
        simpa [Round.attached, hjstack, hjattach] using h
      refine ⟨.jattachTemp, by simp [chain, hjstack, hjattach, htemp], ?_⟩
      rw [attempt_done rfl ((done_viaTemp r).trans htemp), output_viaTemp]
      simp [triedUntil, chain, hjstack, hjattach, htemp, List.findIdx_cons]

theorem attach_of_not_attached (h : r.attached = false) (disk : Option GoString) :
    ∃ d, r.attach disk = ⟨[.jstack, .jattach, .jattachTemp], none, d⟩ := by
  simp only [Round.attached, Bool.or_eq_false_iff] at h
  obtain ⟨⟨hjstack, hjattach⟩, htemp⟩ := h
  obtain ⟨d₁, hfirst⟩ := attempt_failed (s := ⟨[], none, disk⟩) rfl hjstack .jstack
  obtain ⟨d₂, hsecond⟩ := attempt_failed (s := ⟨[] ++ [.jstack], none, d₁⟩) rfl hjattach .jattach
  obtain ⟨d₃, hthird⟩ := attempt_failed (s := ⟨[] ++ [.jstack] ++ [.jattach], none, d₂⟩) rfl
    ((done_viaTemp r).trans htemp) .jattachTemp
  exact ⟨d₃, by rw [attach_eq, hfirst, hsecond, hthird]; rfl⟩

end Round

/-! ## `jstack -F` -/

theorem opening_ok {o : Opening} (h : o.ok = true) (name : Attempt) (s : RoundState) :
    o.run name s = .ok (Handle.create.write header) := by
  obtain ⟨creates, stray, writeErr⟩ := o
  simp only [Opening.ok, Bool.and_eq_true, Option.isNone_iff_eq_none] at h
  obtain ⟨⟨hcreates, hstray⟩, hwrite⟩ := h
  subst hcreates
  subst hwrite
  rcases stray with _ | _ | _
  · rfl
  · rfl
  · exact absurd hstray (by decide)

theorem opening_failed {o : Opening} (h : o.ok = false) (name : Attempt) (s : RoundState) :
    ∃ file disk, o.run name s = .error ⟨s.tried ++ [name], file, disk⟩ := by
  obtain ⟨creates, stray, writeErr⟩ := o
  cases creates with
  | false =>
    rcases stray with _ | _ | _
    · exact ⟨_, _, rfl⟩
    · exact ⟨_, _, rfl⟩
    · exact ⟨_, _, rfl⟩
  | true =>
    cases writeErr with
    | some n =>
      rcases stray with _ | _ | _
      · exact ⟨_, _, rfl⟩
      · exact ⟨_, _, rfl⟩
      · exact ⟨_, _, rfl⟩
    | none =>
      rcases stray with _ | _ | _
      · exact absurd h (by decide)
      · exact absurd h (by decide)
      · exact ⟨_, _, rfl⟩

theorem length_scannedLines_header : (scannedLines header).length = 2 := by decide

/-- The first line is what `JStackF.Run` reads, so it runs its commands from the start. -/
theorem jstackF_run_eq {f : JStackF} (hseeks : f.seeks = true) :
    f.run (Handle.create.write header) =
      if f.seeksAgain = false then (true, (Handle.create.write header).seekStart.readAll.2)
      else
        let file := (Handle.create.write header).seekStart.write f.jstack.output
        if f.jstack.ok then (false, file)
        else (!f.jattach.ok, file.write f.jattach.output) := by
  have hlines : min (scannedLines (Handle.create.write header).content).length 6 ≤ 5 := by
    rw [Handle.content_write_create, length_scannedLines_header]
    decide
  simp only [JStackF.run, hseeks, Bool.true_eq_false, if_false, if_pos hlines]
  rfl

theorem jstackF_run_failed {f : JStackF} (h : f.ok = false) :
    (f.run (Handle.create.write header)).1 = true := by
  cases hseeks : f.seeks with
  | false => simp [JStackF.run, hseeks]
  | true =>
    rw [jstackF_run_eq hseeks]
    cases hagain : f.seeksAgain with
    | false => rfl
    | true =>
      simp only [JStackF.ok, hseeks, hagain, Bool.true_and, Bool.or_eq_false_iff] at h
      simp [h.1, h.2]

/-- The commands write over the first line, as far as they print. -/
theorem jstackF_run_ok {f : JStackF} (h : f.ok = true) :
    (f.run (Handle.create.write header)).1 = false ∧
      (f.run (Handle.create.write header)).2.content =
        f.output ++ header.drop f.output.length := by
  simp only [JStackF.ok, Bool.and_eq_true, Bool.or_eq_true] at h
  obtain ⟨⟨hseeks, hagain⟩, hok⟩ := h
  have hover : ∀ data, ((Handle.create.write header).seekStart.write data).content =
      data ++ header.drop data.length := by
    intro data
    rw [Handle.content_write_seekStart, Handle.content_write_create]
  rw [jstackF_run_eq hseeks, JStackF.output]
  cases hjstack : f.jstack.ok with
  | true => simp [hagain, hover]
  | false =>
    have hjattach : f.jattach.ok = true := by simpa [hjstack] using hok
    have hboth := Handle.content_write_write (f := (Handle.create.write header).seekStart)
      (Nat.zero_le _) f.jstack.output f.jattach.output
    rw [hover] at hboth
    simp [hagain, hjattach, hboth]

/-! ## One round -/

section Rounds

variable {r : Round}

theorem run_of_attached (h : r.attached = true) (disk : Option GoString) :
    ∃ a, chain.find? r.succeeds = some a ∧
      r.run disk = ⟨triedUntil r.succeeds chain, some (r.output a), true⟩ := by
  obtain ⟨a, hfirst, hattach⟩ := attach_of_attached h disk
  refine ⟨a, hfirst, ?_⟩
  unfold Round.run
  rw [hattach]
  rfl

/-- Behind `jstack -F` there is a file, so nothing is tried any more. -/
theorem run_of_jstackF (h : r.attached = false) (hjstackF : r.succeeds .jstackF = true)
    (disk : Option GoString) :
    r.run disk = ⟨[.jstack, .jattach, .jattachTemp, .jstackF],
      some (r.jstackF.output ++ header.drop r.jstackF.output.length),
      !r.stray.getD false⟩ := by
  obtain ⟨d, hattach⟩ := attach_of_not_attached h disk
  obtain ⟨hopening, hcommands⟩ := Bool.and_eq_true_iff.mp hjstackF
  obtain ⟨herr, hcontent⟩ := jstackF_run_ok hcommands
  unfold Round.run Round.tryJStackF
  rw [hattach]
  simp only [Option.isSome_none, Bool.false_eq_true, if_false, opening_ok hopening, herr,
    bind, Except.bind, hcontent]
  cases r.stray.getD false with
  | true => rfl
  | false => rfl

/-- Without a file for `jstack -F` it is the last attempt, and the worker stops. -/
theorem run_of_opening_failed (h : r.attached = false) (hopening : r.opening.ok = false)
    (disk : Option GoString) :
    (r.run disk).tried = [.jstack, .jattach, .jattachTemp, .jstackF] ∧
      (r.run disk).goesOn = false := by
  obtain ⟨d, hattach⟩ := attach_of_not_attached h disk
  obtain ⟨file, disk', hrun⟩ := opening_failed hopening .jstackF
    ⟨[.jstack, .jattach, .jattachTemp], none, d⟩
  unfold Round.run Round.tryJStackF
  rw [hattach]
  simp [hrun, bind, Except.bind]

/-- `jstack -F` is the last attempt, whether it succeeds or not. -/
theorem tried_of_not_attached (h : r.attached = false) (disk : Option GoString) :
    (r.run disk).tried = [.jstack, .jattach, .jattachTemp, .jstackF] := by
  cases hopening : r.opening.ok with
  | false => exact (run_of_opening_failed h hopening disk).1
  | true =>
    obtain ⟨d, hattach⟩ := attach_of_not_attached h disk
    unfold Round.run Round.tryJStackF
    rw [hattach]
    simp only [Option.isSome_none, Bool.false_eq_true, if_false, opening_ok hopening, bind,
      Except.bind]
    cases r.stray.getD (r.jstackF.run (Handle.create.write header)).1 with
    | true => rfl
    | false => rfl

theorem goesOn_of_failed (h : r.attached = false) (hjstackF : r.succeeds .jstackF = false)
    (hstray : r.stray = none) (disk : Option GoString) : (r.run disk).goesOn = false := by
  cases hopening : r.opening.ok with
  | false => exact (run_of_opening_failed h hopening disk).2
  | true =>
    obtain ⟨d, hattach⟩ := attach_of_not_attached h disk
    unfold Round.run Round.tryJStackF
    rw [hattach, hstray]
    have hcommands : r.jstackF.ok = false := by
      rw [Round.succeeds, hopening, Bool.true_and] at hjstackF
      exact hjstackF
    simp [opening_ok hopening, jstackF_run_failed hcommands, bind, Except.bind]

theorem triedUntil_of_not_attached (h : r.attached = false) :
    triedUntil r.succeeds chain = if r.succeeds .jstackF then
      [.jstack, .jattach, .jattachTemp, .jstackF] else chain := by
  simp only [Round.attached, Bool.or_eq_false_iff] at h
  obtain ⟨⟨hjstack, hjattach⟩, htemp⟩ := h
  cases hjstackF : r.succeeds .jstackF with
  | true => simp [triedUntil, chain, List.findIdx_cons, hjstack, hjattach, htemp, hjstackF]
  | false =>
    cases hjhsdb : r.succeeds .jhsdb with
    | true =>
      simp [triedUntil, chain, List.findIdx_cons, hjstack, hjattach, htemp, hjstackF, hjhsdb]
    | false =>
      simp [triedUntil, chain, List.findIdx_cons, hjstack, hjattach, htemp, hjstackF, hjhsdb]

/-- A round that the worker is there for is tried to its end exactly where it is answered. -/
theorem triedToTheEnd_iff (r : Round) (disk : Option GoString) :
    r.TriedToTheEnd (r.run disk) ↔ r.Answered := by
  cases hattached : r.attached with
  | true =>
    obtain ⟨a, hfirst, hrun⟩ := run_of_attached hattached disk
    refine iff_of_true ⟨?_, fun a' ha' => ?_⟩ (Or.inl hattached)
    · rw [hrun]
    · rw [hrun, Option.some.inj (hfirst.symm.trans ha')]
  | false =>
    have htried := triedUntil_of_not_attached hattached
    cases hjstackF : r.succeeds .jstackF with
    | false =>
      refine iff_of_false (fun h => ?_) fun h => ?_
      · have hall := h.tried
        rw [tried_of_not_attached hattached, htried, hjstackF] at hall
        exact absurd hall (by decide)
      · rcases h with h | h
        · rw [hattached] at h
          cases h
        · rw [hjstackF] at h
          cases h.1
    | true =>
      have hrun := run_of_jstackF hattached hjstackF disk
      have hfirst : chain.find? r.succeeds = some .jstackF := by
        simp only [Round.attached, Bool.or_eq_false_iff] at hattached
        simp [chain, hattached.1.1, hattached.1.2, hattached.2, hjstackF]
      have hcover : r.jstackF.output ++ header.drop r.jstackF.output.length = r.jstackF.output ↔
          header.length ≤ r.jstackF.output.length := by
        rw [List.append_right_eq_self, List.drop_eq_nil_iff]
      constructor
      · intro h
        have hfile := h.file _ hfirst
        rw [hrun] at hfile
        exact Or.inr ⟨hjstackF, hcover.mp (Option.some.inj hfile)⟩
      · intro h
        refine ⟨?_, fun a ha => ?_⟩
        · rw [hrun, htried, hjstackF]
          rfl
        · rw [hrun, ← Option.some.inj (hfirst.symm.trans ha)]
          rcases h with h | h
          · rw [hattached] at h
            cases h
          · exact congrArg some (hcover.mpr h.2)

theorem goesOn_iff_of_answered (h : r.Answered) (disk : Option GoString) :
    (r.run disk).goesOn = true ↔ r.Undisturbed := by
  cases hattached : r.attached with
  | true =>
    obtain ⟨a, -, hrun⟩ := run_of_attached hattached disk
    exact iff_of_true (by rw [hrun]) (Or.inl hattached)
  | false =>
    have hjstackF : r.succeeds .jstackF = true := by
      rcases h with h | h
      · rw [hattached] at h
        cases h
      · exact h.1
    rw [run_of_jstackF hattached hjstackF, Round.Undisturbed, hattached]
    rcases r.stray with _ | _ | _ <;> simp

/-- The steps of a round as far as the concatenation of the files needs them. -/
def Round.dumpRound (r : Round) (processExists topHCreates : Bool) : DumpRound where
  jstack := r.jstack.toDumpAttempt
  jattach := r.jattach.toDumpAttempt
  copy2TempPath := r.copy2TempPath
  jattachTemp := r.jattachTemp.toDumpAttempt
  creates := r.opening.creates
  writeString := r.opening.writeErr.isNone
  jstackF := r.jstackF.ok
  processExists := processExists
  topHCreates := topHCreates

/-- Where every test sees the error that it is about, the worker goes on as it does there. -/
theorem goesOn_dumpRound (hopening : r.opening.stray = none) (hstray : r.stray = none)
    (disk : Option GoString) (processExists topHCreates : Bool) :
    (r.run disk).goesOn = (r.dumpRound processExists topHCreates).goesOn := by
  have hattach : (r.dumpRound processExists topHCreates).attached = r.attached := rfl
  have hforce : (r.opening.creates && r.opening.writeErr.isNone && r.jstackF.ok) =
      r.succeeds .jstackF := by
    rw [Round.succeeds, Opening.ok, hopening]
    cases r.opening.creates <;> rfl
  show _ = (_ || (r.opening.creates && r.opening.writeErr.isNone && r.jstackF.ok))
  rw [hattach, hforce]
  cases hattached : r.attached with
  | true =>
    obtain ⟨a, -, hrun⟩ := run_of_attached hattached disk
    rw [hrun]
    rfl
  | false =>
    cases hjstackF : r.succeeds .jstackF with
    | true =>
      rw [run_of_jstackF hattached hjstackF, hstray]
      rfl
    | false => exact goesOn_of_failed hattached hjstackF hstray disk

/-- A worker that is not there tries nothing. -/
theorem not_triedToTheEnd_of_gone (r : Round) (file : Option GoString) (goesOn : Bool) :
    ¬ r.TriedToTheEnd ⟨[], file, goesOn⟩ := by
  intro h
  have htried := h.tried
  rw [triedUntil, chain, List.take_succ_cons] at htried
  cases htried

end Rounds

/-! ## All rounds -/

section Runs

variable {round : Nat → Round} {disk : Nat → Option GoString}

/-- Every round is tried to the end of the chain. -/
def EveryRoundTried (round : Nat → Round) (disk : Nat → Option GoString) (count : Nat) : Prop :=
  ∀ e ∈ run round disk count, (round e.1).TriedToTheEnd e.2

theorem runRounds_tried_iff (m n : Nat) :
    (∀ e ∈ runRounds round disk (List.range' n m) true, (round e.1).TriedToTheEnd e.2) ↔
      ∀ i, n ≤ i → i < n + m →
        (round i).Answered ∧ (i + 1 < n + m → (round i).Undisturbed) := by
  induction m generalizing n with
  | zero =>
    refine iff_of_true (fun e he => absurd he List.not_mem_nil) fun i hi hlt => ?_
    exact absurd (Nat.lt_of_lt_of_le hlt hi) (Nat.lt_irrefl _)
  | succ m ih =>
    have hshift : n + (m + 1) = n + 1 + m := by omega
    rw [List.range'_succ, runRounds, List.forall_mem_cons, triedToTheEnd_iff]
    constructor
    · intro h i hi hlt
      obtain ⟨hanswered, hrest⟩ := h
      have hgoesOn : 0 < m → ((round n).run (disk n)).goesOn = true := by
        intro hm
        obtain ⟨k, rfl⟩ : ∃ k, m = k + 1 := ⟨m - 1, by omega⟩
        cases hgone : ((round n).run (disk n)).goesOn with
        | true => rfl
        | false =>
          rw [hgone, List.range'_succ, runRounds] at hrest
          exact absurd (hrest _ List.mem_cons_self) (not_triedToTheEnd_of_gone _ _ _)
      rcases Nat.eq_or_lt_of_le hi with rfl | hi
      · exact ⟨hanswered, fun hlast =>
          (goesOn_iff_of_answered hanswered _).mp (hgoesOn (by omega))⟩
      · rw [hgoesOn (by omega)] at hrest
        rw [hshift]
        exact (ih (n + 1)).mp hrest i hi (hshift ▸ hlt)
    · intro h
      obtain ⟨hanswered, hundisturbed⟩ := h n (Nat.le_refl n) (by omega)
      refine ⟨hanswered, ?_⟩
      cases m with
      | zero => exact fun e he => by cases he
      | succ k =>
        have hgoesOn := (goesOn_iff_of_answered hanswered (disk n)).mpr (hundisturbed (by omega))
        rw [hgoesOn]
        refine (ih (n + 1)).mpr fun i hi hlt => ?_
        rw [← hshift] at hlt ⊢
        exact h i (by omega) hlt

theorem tried_ne_nil (r : Round) (disk : Option GoString) : (r.run disk).tried ≠ [] := by
  cases hattached : r.attached with
  | true =>
    obtain ⟨a, -, hrun⟩ := run_of_attached hattached disk
    rw [hrun, triedUntil, chain, List.take_succ_cons]
    exact List.cons_ne_nil _ _
  | false =>
    rw [tried_of_not_attached hattached]
    exact List.cons_ne_nil _ _

/-- The rounds of a run in which something was tried. -/
def triedRounds (ends : List (Nat × RoundEnd)) : List Nat :=
  (ends.filter fun e => e.2.tried ≠ []).map Prod.fst

/-- The rounds that are tried are those up to the first one behind which the worker returns. -/
theorem triedRounds_runRounds (round : Nat → Round) (disk : Nat → Option GoString)
    (ns : List Nat) :
    triedRounds (runRounds round disk ns true) =
      ns.take (ns.findIdx (fun n => !((round n).run (disk n)).goesOn) + 1) := by
  have hgone : ∀ ns, triedRounds (runRounds round disk ns false) = [] := by
    intro ns
    induction ns with
    | nil => rfl
    | cons n ns ih => exact ih
  induction ns with
  | nil => rfl
  | cons n ns ih =>
    have hhead : ∀ rest, triedRounds ((n, (round n).run (disk n)) :: rest) =
        n :: triedRounds rest := by
      intro rest
      have hkeep : decide (((round n).run (disk n)).tried ≠ []) = true :=
        decide_eq_true (tried_ne_nil _ _)
      rw [triedRounds, List.filter_cons, if_pos hkeep]
      rfl
    rw [runRounds, hhead, List.findIdx_cons, List.take_succ_cons]
    cases hgoesOn : ((round n).run (disk n)).goesOn with
    | true => rw [ih]; rfl
    | false => rw [hgone]; rfl

/-- Every round is tried to the end of the chain exactly where each is answered, and in all
but the last one no error of `top -H` is taken for one of `jstack -F`. -/
theorem everyRoundTried_iff (round : Nat → Round) (disk : Nat → Option GoString) (count : Nat) :
    EveryRoundTried round disk count ↔
      ∀ n, 1 ≤ n → n ≤ count →
        (round n).Answered ∧ (n < count → (round n).Undisturbed) := by
  have hcount : ∀ n, n < 1 + count ↔ n ≤ count := by omega
  simp only [EveryRoundTried, run, runRounds_tried_iff, hcount]
  exact Iff.rfl

/-- Nothing gives a thread dump but `jhsdb`. -/
def onlyJhsdb : Round where
  jstack := ⟨⟨true, false⟩, []⟩
  jattach := ⟨⟨true, false⟩, []⟩
  copy2TempPath := true
  jattachTemp := ⟨⟨true, false⟩, []⟩
  opening := ⟨true, none, none⟩
  jstackF := ⟨true, true, ⟨[], false⟩, ⟨[], false⟩⟩
  stray := none
  openingJhsdb := ⟨true, none, none⟩
  jhsdb := ⟨str "Attaching to process", true⟩

theorem onlyJhsdb_notTried : ¬ EveryRoundTried (fun _ => onlyJhsdb) (fun _ => none) 3 := by
  intro h
  have hfirst := ((runRounds_tried_iff 3 1).mp h 1 (Nat.le_refl 1) (by decide)).1
  rcases hfirst with hattached | hjstackF
  · exact absurd hattached (by decide)
  · exact absurd hjstackF.1 (by decide)

end Runs


end YcAgent.Capture.JStack
