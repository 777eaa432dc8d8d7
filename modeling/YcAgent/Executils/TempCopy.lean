import Mathlib.Logic.Function.Basic
import YcAgent.Base.Run
import YcAgent.Base.Strings

/-!
# The temp copy of the executable

`Copy2TempPath` looks for a recorded copy under the read lock and makes one under the write
lock, without looking again. Nobody reads the path while the write lock is held, so the copy is
one step; what other calls do goes between the two steps of a call. Calls are numbered, and
there may be any number of them. The removal is the agent's last act, and may come behind any
step of theirs.
-/
namespace YcAgent.Executils.TempCopy

open Go

/-- How the copy under the write lock goes. -/
inductive Outcome where
  | invalidPath
  | openErr (err : GoString)
  | createTempErr (err : GoString)
  | copyErr (file err : GoString)
  | copied (file : GoString) (chmodErr : Option GoString)

/-- The file that `os.CreateTemp` made. -/
def Outcome.file : Outcome → Option GoString
  | .copyErr file _ => some file
  | .copied file _ => some file
  | _ => none

inductive Phase where
  | called
  | checked
  | returned (name : GoString) (err : Option GoString)

/-- The recorded path, the copies with the calls that made them, and where the calls are. -/
structure State where
  tmpPath : GoString
  files : List (Nat × GoString)
  phase : Nat → Phase

def init : State := ⟨[], [], fun _ => .called⟩

def State.setPhase (s : State) (i : Nat) (p : Phase) : State :=
  { s with phase := Function.update s.phase i p }

/-- `os.CreateTemp` takes a name that no file has. -/
def State.Fresh (s : State) (file : GoString) : Prop := file ≠ [] ∧ ∀ c ∈ s.files, c.2 ≠ file

instance (s : State) (file : GoString) : Decidable (s.Fresh file) :=
  inferInstanceAs (Decidable (_ ∧ _))

instance (s : State) (file : Option GoString) : Decidable (∀ f, file = some f → s.Fresh f) :=
  match file with
  | none => .isTrue nofun
  | some f => decidable_of_iff (s.Fresh f) ⟨fun h _ hf => Option.some.inj hf ▸ h, fun h => h f rfl⟩

/-- What the call `i` does under the write lock. -/
def State.copy (s : State) (i : Nat) : Outcome → State
  | .invalidPath => s.setPhase i (.returned [] (some (str "failed to Copy2TempPath: invalid path")))
  | .openErr err => s.setPhase i (.returned [] (some err))
  | .createTempErr err => s.setPhase i (.returned [] (some err))
  | .copyErr file err =>
    -- the file stays where it is, and its path is lost
    { s with files := s.files ++ [(i, file)] }.setPhase i (.returned [] (some err))
  | .copied file chmodErr =>
    { s with tmpPath := file, files := s.files ++ [(i, file)] }.setPhase i
      (.returned file chmodErr)

inductive Action where
  | check (i : Nat)
  | copy (i : Nat) (o : Outcome)

def step (s : State) : Action → Option State
  | .check i =>
    match s.phase i with
    | .called =>
      if 0 < s.tmpPath.length then some (s.setPhase i (.returned s.tmpPath none))
      else some (s.setPhase i .checked)
    | _ => none
  | .copy i o =>
    match s.phase i with
    | .checked => if ∀ f, o.file = some f → s.Fresh f then some (s.copy i o) else none
    | _ => none

/-- `RemoveFromTempPath`; `removed` says whether `os.Remove` goes through. -/
def State.removeFromTempPath (s : State) (removed : Bool) : State :=
  if 0 < s.tmpPath.length then
    if removed then { s with files := s.files.filter fun c => c.2 ≠ s.tmpPath } else s
  else s

def State.Succeeded (s : State) (i : Nat) : Prop := ∃ name, s.phase i = .returned name none

/-- Successful calls have one file between them, and a removal that goes through leaves no file of
any call. -/
structure OneCopy (s : State) : Prop where
  one : ∀ c ∈ s.files, ∀ d ∈ s.files, s.Succeeded c.1 → s.Succeeded d.1 → c = d
  same : ∀ i j name name', s.phase i = .returned name none → s.phase j = .returned name' none →
    name = name'
  removed : (s.removeFromTempPath true).files = []

/-- A copy that makes a file is the first one, and the executable gets into it. -/
def FirstAndWhole (s : State) : Action → State → Prop
  | .copy _ (.copyErr _ _), _ => False
  | .copy _ (.copied _ _), _ => s.tmpPath = []
  | _, _ => True

/-! ## Steps -/

/-- Everything a step can do. -/
inductive Moves (s : State) : Action → State → Prop where
  | found (i : Nat) (hpath : s.tmpPath ≠ []) :
      Moves s (.check i) (s.setPhase i (.returned s.tmpPath none))
  | checked (i : Nat) : Moves s (.check i) (s.setPhase i .checked)
  | failed (i : Nat) (o : Outcome) (err : GoString) (hfile : o.file = none) :
      Moves s (.copy i o) (s.setPhase i (.returned [] (some err)))
  | lost (i : Nat) (file err : GoString) (hfresh : s.Fresh file) :
      Moves s (.copy i (.copyErr file err)) (s.copy i (.copyErr file err))
  | copied (i : Nat) (file : GoString) (err : Option GoString) (hfresh : s.Fresh file) :
      Moves s (.copy i (.copied file err)) (s.copy i (.copied file err))

theorem moves_of_step {s t : State} {a : Action} (h : step s a = some t) : Moves s a t := by
  cases a with
  | check i =>
    simp only [step] at h
    split at h
    · split at h
      · rename_i hpath
        cases h
        exact .found i (List.ne_nil_of_length_pos hpath)
      · cases h
        exact .checked i
    · cases h
  | copy i o =>
    simp only [step] at h
    split at h
    · rw [Option.ite_none_right_eq_some] at h
      obtain ⟨hfresh, h⟩ := h
      cases h
      cases o with
      | invalidPath => exact .failed i .invalidPath _ rfl
      | openErr err => exact .failed i (.openErr err) err rfl
      | createTempErr err => exact .failed i (.createTempErr err) err rfl
      | copyErr file err => exact .lost i file err (hfresh file rfl)
      | copied file err => exact .copied i file err (hfresh file rfl)
    · cases h

section SetPhase

variable (s : State) (i : Nat) (p : Phase)

@[simp] theorem phase_setPhase_self : (s.setPhase i p).phase i = p := Function.update_self ..

theorem phase_setPhase_of_ne {j : Nat} (h : j ≠ i) : (s.setPhase i p).phase j = s.phase j :=
  Function.update_of_ne h _ _

end SetPhase

theorem mem_removed {s : State} {c : Nat × GoString} (hc : c ∈ s.files) (h : c.2 ≠ s.tmpPath) :
    c ∈ (s.removeFromTempPath true).files := by
  unfold State.removeFromTempPath
  split
  · exact List.mem_filter.mpr ⟨hc, decide_eq_true h⟩
  · exact hc

/-! ## Runs of first and whole copies -/

/-- There is one copy at most, its path is recorded, and whoever succeeded has it. -/
structure Inv (s : State) : Prop where
  files : s.files = [] ∧ s.tmpPath = [] ∨ ∃ i, s.files = [(i, s.tmpPath)] ∧ s.tmpPath ≠ []
  returned : ∀ i name, s.phase i = .returned name none → name = s.tmpPath ∧ name ≠ []

theorem inv_init : Inv init := ⟨Or.inl ⟨rfl, rfl⟩, nofun⟩

/-- A call that returns what is recorded, or an error, keeps the invariant. -/
theorem Inv.setPhase {s : State} (hs : Inv s) (i : Nat) {p : Phase}
    (hp : ∀ name, p = .returned name none → name = s.tmpPath ∧ name ≠ []) :
    Inv (s.setPhase i p) := by
  refine ⟨hs.files, fun j name hj => ?_⟩
  by_cases hji : j = i
  · subst hji
    rw [phase_setPhase_self] at hj
    exact hp name hj
  · rw [phase_setPhase_of_ne _ _ _ hji] at hj
    exact hs.returned j name hj

theorem inv_step {s t : State} {a : Action} (hs : Inv s) (h : step s a = some t)
    (hfirst : FirstAndWhole s a t) : Inv t := by
  cases moves_of_step h with
  | found i hpath =>
    apply hs.setPhase
    intro name hname
    cases hname
    exact ⟨rfl, hpath⟩
  | checked i => exact hs.setPhase i nofun
  | failed i o err hfile => exact hs.setPhase i nofun
  | lost i file err hfresh => exact hfirst.elim
  | copied i file err hfresh =>
    have hempty : s.tmpPath = [] := hfirst
    have hnone : s.files = [] := by
      rcases hs.files with ⟨hfiles, -⟩ | ⟨j, -, hpath⟩
      · exact hfiles
      · exact absurd hempty hpath
    have hquiet : ∀ j name, s.phase j ≠ .returned name none := by
      intro j name hj
      obtain ⟨hname, hne⟩ := hs.returned j name hj
      exact hne (hname.trans hempty)
    refine ⟨Or.inr ⟨i, ?_, hfresh.1⟩, fun j name hj => ?_⟩
    · show s.files ++ [(i, file)] = [(i, file)]
      rw [hnone, List.nil_append]
    · by_cases hji : j = i
      · subst hji
        have hname : Phase.returned file err = .returned name none :=
          (phase_setPhase_self _ _ _).symm.trans hj
        cases hname
        exact ⟨rfl, hfresh.1⟩
      · exact absurd ((phase_setPhase_of_ne _ _ _ hji).symm.trans hj) (hquiet j name)

theorem Inv.oneCopy {s : State} (hs : Inv s) : OneCopy s := by
  refine ⟨fun c hc d hd _ _ => ?_, fun i j name name' hi hj => ?_, ?_⟩
  · rcases hs.files with ⟨hfiles, -⟩ | ⟨i, hfiles, -⟩
    · rw [hfiles] at hc
      cases hc
    · rw [hfiles, List.mem_singleton] at hc hd
      exact hc.trans hd.symm
  · exact (hs.returned i name hi).1.trans (hs.returned j name' hj).1.symm
  · unfold State.removeFromTempPath
    rcases hs.files with ⟨hfiles, hpath⟩ | ⟨i, hfiles, hpath⟩
    · rw [hpath, if_neg (by decide), hfiles]
    · rw [if_pos (List.length_pos_of_ne_nil hpath)]
      simp [hfiles]

/-! ## Other runs -/

/-- A recorded copy is there. -/
def Recorded (s : State) : Prop := s.tmpPath ≠ [] → ∃ c ∈ s.files, c.2 = s.tmpPath

theorem recorded_step {s t : State} {a : Action} (hs : Recorded s) (h : step s a = some t) :
    Recorded t := by
  cases moves_of_step h with
  | found i hpath => exact hs
  | checked i => exact hs
  | failed i o err hfile => exact hs
  | lost i file err hfresh =>
    intro hpath
    obtain ⟨c, hc, hfile⟩ := hs hpath
    exact ⟨c, List.mem_append_left _ hc, hfile⟩
  | copied i file err hfresh =>
    exact fun _ => ⟨(i, file), List.mem_append_right _ (List.mem_singleton.mpr rfl), rfl⟩

/-- A copy that is not the first, or not whole, leaves a file that no removal takes. -/
theorem firstAndWhole_of_oneCopy {s t : State} {a : Action} (hs : Recorded s)
    (h : step s a = some t) (ht : OneCopy t) : FirstAndWhole s a t := by
  have hgone : ∀ c ∈ t.files, c.2 = t.tmpPath := by
    intro c hc
    by_contra hne
    have hleft := mem_removed hc hne
    rw [ht.removed] at hleft
    cases hleft
  cases moves_of_step h with
  | found i hpath => trivial
  | checked i => trivial
  | failed i o err hfile =>
    cases o with
    | invalidPath => trivial
    | openErr err => trivial
    | createTempErr err => trivial
    | copyErr file err => cases hfile
    | copied file err => cases hfile
  | lost i file err hfresh =>
    have hfile : file = s.tmpPath :=
      hgone (i, file) (List.mem_append_right _ (List.mem_singleton.mpr rfl))
    obtain ⟨c, hc, hpath⟩ := hs (hfile ▸ hfresh.1)
    exact absurd (hpath.trans hfile.symm) (hfresh.2 c hc)
  | copied i file err hfresh =>
    show s.tmpPath = []
    by_contra hpath
    obtain ⟨c, hc, -⟩ := hs hpath
    exact absurd (hgone c (List.mem_append_left _ hc)) (hfresh.2 c hc)

/-- Every state has one copy if and only if every copy that makes a file finds none recorded and
goes through. -/
theorem oneCopy_iff (as : List Action) :
    Transition.Throughout step OneCopy init as ↔ Transition.Along step FirstAndWhole init as := by
  have hrecorded : Recorded init := fun hpath => absurd rfl hpath
  apply Transition.throughout_iff_along (I := Inv) (J := Recorded)
  · exact fun _ _ _ hs hstep hfirst => inv_step hs hstep hfirst
  · exact fun _ hs => hs.oneCopy
  · exact fun _ _ _ hs hstep => recorded_step hs hstep
  · exact fun _ _ _ hs hstep ht => firstAndWhole_of_oneCopy hs hstep ht
  · exact inv_init
  · exact hrecorded

/-- Two calls that both look before either copies. -/
theorem not_oneCopy_twoCalls : ¬ ∀ as, Transition.Throughout step OneCopy init as := by
  intro h
  have hcopy := Transition.throughout_last
    (h [.check 0, .check 1, .copy 0 (.copied (str "/tmp/yc1") none),
      .copy 1 (.copied (str "/tmp/yc2") none)]) rfl
  exact absurd hcopy.removed (by decide)

end YcAgent.Executils.TempCopy
