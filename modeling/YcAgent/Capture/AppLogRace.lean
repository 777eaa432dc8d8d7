import Mathlib.Data.UInt
import YcAgent.Base.Handle
import YcAgent.Base.Run
import YcAgent.Capture.AppLog

/-!
# Tasks that choose destination names side by side

`generateUniqueLogPath` looks whether a name is taken and `os.Create` takes it, in two steps
with steps of other tasks in between, and `os.Create` does not mind a file that is there. A
name has the base name of the log in it, so a clash needs two tasks with logs of one base
name. A task copies its logs one after the other and does not clash with itself.
-/
namespace YcAgent.Capture.AppLog.Race

open Go Go.FilePath

/-- A file that a task has created, and what is to be copied into it. -/
structure Destination where
  task : Nat
  filePath : GoString
  dstPath : GoString
  data : GoString
  deriving DecidableEq

/-- A copy that is complete, and the body that was read back for the upload. -/
structure Ended where
  destination : Destination
  posted : Option GoString

/-- Where a task is: between two logs, in the loop of `generateUniqueLogPath`, before
`os.Create`, or copying. -/
inductive Phase where
  | next
  | searching (filePath src : GoString) (counter : Nat)
  | creating (filePath src dstPath : GoString)
  | copying (d : Destination) (offset : Nat)

/-- The files of the working directory, and where the tasks are. -/
structure State where
  names : List GoString
  content : GoString → GoString
  todo : Nat → List GoString
  phase : Nat → Phase
  destinations : List Destination
  ended : List Ended

/-- A step of the `i`-th task; `src` is the log where it can be opened, `n` how much of it the
next write takes. -/
inductive Action where
  | opens (i : Nat) (src : Option GoString)
  | check (i : Nat)
  | create (i : Nat) (ok : Bool)
  | write (i : Nat) (n : Nat)
  | fails (i : Nat)
  | finish (i : Nat) (sync : Bool)

/-- The `i`-th task has the logs `files i`. -/
def init (names : List GoString) (content : GoString → GoString) (files : Nat → List GoString) :
    State :=
  ⟨names, content, files, fun _ => .next, [], []⟩

def State.setPhase (s : State) (i : Nat) (p : Phase) : State :=
  { s with phase := Function.update s.phase i p }

def State.create (s : State) (path : GoString) : State :=
  { s with
    names := if s.names.contains path then s.names else s.names ++ [path]
    content := Function.update s.content path [] }

/-- The next piece of a copy, written where the last one ended. -/
def State.write (s : State) (d : Destination) (offset n : Nat) : State :=
  let file : Handle Byte := ⟨s.content d.dstPath, offset⟩
  let piece := (d.data.drop offset).take n
  { s with content := Function.update s.content d.dstPath (file.write piece).content }

def step (lineLimit : Nat → Int) (s : State) : Action → Option State
  | .opens i src =>
    match s.phase i, s.todo i with
    | .next, filePath :: rest =>
      let s := { s with todo := Function.update s.todo i rest }
      match src with
      | none => some s
      | some src => some (s.setPhase i (.searching filePath src 1))
    | _, _ => none
  | .check i =>
    match s.phase i with
    | .searching filePath src counter =>
      let path := uniqueLogPath counter (base filePath)
      if s.names.contains path then some (s.setPhase i (.searching filePath src (counter + 1)))
      else some (s.setPhase i (.creating filePath src path))
    | _ => none
  | .create i ok =>
    match s.phase i with
    | .creating filePath src dstPath =>
      if ok then
        let s := s.create dstPath
        match copyLogContent (lineLimit i) src (isCompressedFileExt (fileExt filePath)) with
        | .error _ =>
          let d : Destination := ⟨i, filePath, dstPath, []⟩
          some { s.setPhase i .next with destinations := s.destinations ++ [d] }
        | .ok data =>
          let d : Destination := ⟨i, filePath, dstPath, data⟩
          some { s.setPhase i (.copying d 0) with destinations := s.destinations ++ [d] }
      else some (s.setPhase i .next)
    | _ => none
  | .write i n =>
    match s.phase i with
    | .copying d offset =>
      some ((s.write d offset n).setPhase i
        (.copying d (offset + ((d.data.drop offset).take n).length)))
    | _ => none
  | .fails i =>
    match s.phase i with
    | .copying _ _ => some (s.setPhase i .next)
    | _ => none
  | .finish i sync =>
    match s.phase i with
    | .copying d offset =>
      if offset = d.data.length then
        let posted := if sync then some (s.content d.dstPath) else none
        some { s.setPhase i .next with ended := s.ended ++ [⟨d, posted⟩] }
      else none
    | _ => none

/-- No two logs have one destination; a destination holds bytes of its log only, all of them
where the copy is complete, and these are what is posted. -/
structure OneLogEach (s : State) : Prop where
  distinct : (s.destinations.map Destination.dstPath).Nodup
  holds : ∀ d ∈ s.destinations, s.content d.dstPath <+: d.data
  whole : ∀ e ∈ s.ended, s.content e.destination.dstPath = e.destination.data
  posted : ∀ e ∈ s.ended, ∀ body, e.posted = some body → body = e.destination.data

/-- No two tasks have logs of one base name. -/
def NoSharedName (files : Nat → List GoString) : Prop :=
  ∀ i j f g, i ≠ j → f ∈ files i → g ∈ files j → base f ≠ base g

/-! ## What one step does -/

/-- What a task with a new file goes on with. -/
def afterCreate (lineLimit : Nat → Int) (i : Nat) (filePath src dstPath : GoString) :
    Destination × Phase :=
  match copyLogContent (lineLimit i) src (isCompressedFileExt (fileExt filePath)) with
  | .error _ => (⟨i, filePath, dstPath, []⟩, .next)
  | .ok data => (⟨i, filePath, dstPath, data⟩, .copying ⟨i, filePath, dstPath, data⟩ 0)

/-- All that a step can do. -/
inductive Moves (lineLimit : Nat → Int) (s : State) : State → Prop where
  | skips {i : Nat} {filePath : GoString} {rest : List GoString} (hphase : s.phase i = .next)
      (htodo : s.todo i = filePath :: rest) :
      Moves lineLimit s { s with todo := Function.update s.todo i rest }
  | opens {i : Nat} {filePath src : GoString} {rest : List GoString} (hphase : s.phase i = .next)
      (htodo : s.todo i = filePath :: rest) :
      Moves lineLimit s (State.setPhase { s with todo := Function.update s.todo i rest } i
        (.searching filePath src 1))
  | taken {i counter : Nat} {filePath src : GoString}
      (hphase : s.phase i = .searching filePath src counter)
      (htaken : uniqueLogPath counter (base filePath) ∈ s.names) :
      Moves lineLimit s (s.setPhase i (.searching filePath src (counter + 1)))
  | free {i counter : Nat} {filePath src : GoString}
      (hphase : s.phase i = .searching filePath src counter)
      (hfree : uniqueLogPath counter (base filePath) ∉ s.names) :
      Moves lineLimit s
        (s.setPhase i (.creating filePath src (uniqueLogPath counter (base filePath))))
  | creates {i : Nat} {filePath src dstPath : GoString}
      (hphase : s.phase i = .creating filePath src dstPath) :
      Moves lineLimit s
        { (s.create dstPath).setPhase i (afterCreate lineLimit i filePath src dstPath).2 with
          destinations :=
            s.destinations ++ [(afterCreate lineLimit i filePath src dstPath).1] }
  | writes {i offset n : Nat} {d : Destination} (hphase : s.phase i = .copying d offset) :
      Moves lineLimit s ((s.write d offset n).setPhase i
        (.copying d (offset + ((d.data.drop offset).take n).length)))
  | stops {i : Nat} (hphase : (∃ filePath src dstPath,
        s.phase i = .creating filePath src dstPath) ∨ ∃ d offset, s.phase i = .copying d offset) :
      Moves lineLimit s (s.setPhase i .next)
  | finishes {i : Nat} {d : Destination} {posted : Option GoString}
      (hphase : s.phase i = .copying d d.data.length)
      (hposted : ∀ body, posted = some body → body = s.content d.dstPath) :
      Moves lineLimit s { s.setPhase i .next with ended := s.ended ++ [⟨d, posted⟩] }

theorem moves_of_step {lineLimit : Nat → Int} {s t : State} {a : Action}
    (h : step lineLimit s a = some t) : Moves lineLimit s t := by
  cases a with
  | opens i src =>
    simp only [step] at h
    split at h
    · rename_i filePath rest hphase htodo
      split at h
      · cases h
        exact .skips hphase htodo
      · cases h
        exact .opens hphase htodo
    · cases h
  | check i =>
    simp only [step] at h
    split at h
    · rename_i filePath src counter hphase
      split at h
      · rename_i htaken
        cases h
        exact .taken hphase (List.contains_iff_mem.mp htaken)
      · rename_i hfree
        cases h
        exact .free hphase fun hmem => hfree (List.contains_iff_mem.mpr hmem)
    · cases h
  | create i ok =>
    simp only [step] at h
    split at h
    · rename_i filePath src dstPath hphase
      split at h
      · have hcreates : Moves lineLimit s _ := .creates hphase
        unfold afterCreate at hcreates
        split at h
        · rename_i hcopy
          rw [hcopy] at hcreates
          cases h
          exact hcreates
        · rename_i hcopy
          rw [hcopy] at hcreates
          cases h
          exact hcreates
      · cases h
        exact .stops (Or.inl ⟨_, _, _, hphase⟩)
    · cases h
  | write i n =>
    simp only [step] at h
    split at h
    · rename_i hphase
      cases h
      exact .writes hphase
    · cases h
  | fails i =>
    simp only [step] at h
    split at h
    · rename_i hphase
      cases h
      exact .stops (Or.inr ⟨_, _, hphase⟩)
    · cases h
  | finish i sync =>
    simp only [step] at h
    split at h
    · rename_i d offset hphase
      split at h
      · rename_i hall
        cases h
        subst hall
        refine .finishes hphase fun body hbody => ?_
        cases sync with
        | false => cases hbody
        | true => exact (Option.some.inj hbody).symm
      · cases h
    · cases h

/-! ## Logs of different base names -/

theorem dot_not_mem_decimal (n : Nat) : dot ∉ decimal n := fun h =>
  absurd (isDigit_of_mem_decimal dot h) (by decide)

/-- A destination tells the base name of its log. -/
theorem eq_of_uniqueLogPath {k l : Nat} {b c : GoString}
    (h : uniqueLogPath k b = uniqueLogPath l c) : b = c := by
  have hdot : ∀ (n : Nat) (e : GoString), (uniqueLogPath n e).dropWhile (· ≠ dot) =
      str ".appLogs." ++ e := by
    intro n e
    have hdigits : ∀ d ∈ decimal n, (decide (d ≠ dot)) = true := fun d hd =>
      decide_eq_true fun heq => dot_not_mem_decimal n (heq ▸ hd)
    rw [uniqueLogPath, List.dropWhile_append_of_pos hdigits]
    exact List.dropWhile_cons_of_neg (by decide)
  have hcut := congrArg (List.dropWhile (· ≠ dot)) h
  rw [hdot, hdot] at hcut
  exact List.append_cancel_left hcut

def PhaseOk (files : Nat → List GoString) (s : State) (i : Nat) : Phase → Prop
  | .next => True
  | .searching filePath _ _ => filePath ∈ files i
  | .creating filePath _ dstPath =>
    filePath ∈ files i ∧ (∃ k, dstPath = uniqueLogPath k (base filePath)) ∧
      dstPath ∉ s.destinations.map Destination.dstPath
  | .copying d offset =>
    d ∈ s.destinations ∧ d.task = i ∧ offset ≤ d.data.length ∧
      s.content d.dstPath = d.data.take offset ∧ ∀ e ∈ s.ended, e.destination ≠ d

structure Inv (files : Nat → List GoString) (s : State) : Prop extends OneLogEach s where
  todo : ∀ i, s.todo i ⊆ files i
  phase : ∀ i, PhaseOk files s i (s.phase i)
  named : ∀ d ∈ s.destinations,
    d.filePath ∈ files d.task ∧ ∃ k, d.dstPath = uniqueLogPath k (base d.filePath)
  created : ∀ d ∈ s.destinations, d.dstPath ∈ s.names
  ended_mem : ∀ e ∈ s.ended, e.destination ∈ s.destinations

section Invariant

variable {files : Nat → List GoString} {s : State}

theorem inv_init (names : List GoString) (content : GoString → GoString)
    (files : Nat → List GoString) : Inv files (init names content files) where
  distinct := List.nodup_nil
  holds := nofun
  whole := nofun
  posted := nofun
  todo _ := List.Subset.refl _
  phase _ := trivial
  named := nofun
  created := nofun
  ended_mem := nofun

theorem Inv.setTodo (h : Inv files s) {i : Nat} {filePath : GoString} {rest : List GoString}
    (htodo : s.todo i = filePath :: rest) :
    Inv files { s with todo := Function.update s.todo i rest } where
  distinct := h.distinct
  holds := h.holds
  whole := h.whole
  posted := h.posted
  todo j := by
    by_cases hj : j = i
    · subst hj
      show Function.update s.todo j rest j ⊆ files j
      rw [Function.update_self]
      exact fun f hf => h.todo j (htodo ▸ List.mem_cons_of_mem _ hf)
    · show Function.update s.todo i rest j ⊆ files j
      rw [Function.update_of_ne hj]
      exact h.todo j
  phase := h.phase
  named := h.named
  created := h.created
  ended_mem := h.ended_mem

theorem phase_setPhase {P : Nat → Phase → Prop} (h : ∀ i, P i (s.phase i)) {i : Nat} {p : Phase}
    (hp : P i p) (j : Nat) : P j ((s.setPhase i p).phase j) := by
  show P j (Function.update s.phase i p j)
  by_cases hj : j = i
  · subst hj
    rw [Function.update_self]
    exact hp
  · rw [Function.update_of_ne hj]
    exact h j

theorem Inv.setPhase (h : Inv files s) {i : Nat} {p : Phase} (hp : PhaseOk files s i p) :
    Inv files (s.setPhase i p) where
  distinct := h.distinct
  holds := h.holds
  whole := h.whole
  posted := h.posted
  todo := h.todo
  phase := phase_setPhase h.phase hp
  named := h.named
  created := h.created
  ended_mem := h.ended_mem

/-- The destinations with one path are one. -/
theorem OneLogEach.eq_of_dstPath (h : OneLogEach s) {d e : Destination}
    (hd : d ∈ s.destinations) (he : e ∈ s.destinations) (hpath : d.dstPath = e.dstPath) : d = e :=
  List.inj_on_of_nodup_map h.distinct hd he hpath

/-- A write goes on with the log. -/
theorem content_write {d : Destination} {offset : Nat} (hle : offset ≤ d.data.length)
    (hcontent : s.content d.dstPath = d.data.take offset) (n : Nat) :
    (s.write d offset n).content = Function.update s.content d.dstPath
      (d.data.take (offset + ((d.data.drop offset).take n).length)) := by
  have hend : Handle.AtEnd (⟨s.content d.dstPath, offset⟩ : Handle Byte) := by
    show offset = (s.content d.dstPath).length
    rw [hcontent, List.length_take, Nat.min_eq_left hle]
  have hpiece : (d.data.drop offset).take ((d.data.drop offset).take n).length =
      (d.data.drop offset).take n :=
    List.prefix_iff_eq_take.mp (List.take_prefix _ _) |>.symm
  show Function.update s.content d.dstPath _ = _
  rw [hend.content_write]
  show Function.update s.content d.dstPath (s.content d.dstPath ++ _) = _
  rw [hcontent, List.take_add, hpiece]

/-- What a task relies on stays where its names stay new and nobody else writes to its copy. -/
theorem PhaseOk.frame {t : State} {j : Nat} {p : Phase} (h : PhaseOk files s j p)
    (hdest : s.destinations ⊆ t.destinations)
    (hnew : ∀ filePath ∈ files j, ∀ k,
      uniqueLogPath k (base filePath) ∉ s.destinations.map Destination.dstPath →
        uniqueLogPath k (base filePath) ∉ t.destinations.map Destination.dstPath)
    (hcopy : ∀ d ∈ s.destinations, d.task = j → t.content d.dstPath = s.content d.dstPath ∧
      ∀ e ∈ t.ended, e ∈ s.ended ∨ e.destination ≠ d) : PhaseOk files t j p := by
  cases p with
  | next => trivial
  | searching filePath src counter => exact h
  | creating filePath src dstPath =>
    obtain ⟨hfile, ⟨k, rfl⟩, hfree⟩ := h
    exact ⟨hfile, ⟨k, rfl⟩, hnew filePath hfile k hfree⟩
  | copying d offset =>
    obtain ⟨hd, htask, hle, hcontent, hopen⟩ := h
    obtain ⟨hsame, hended⟩ := hcopy d hd htask
    refine ⟨hdest hd, htask, hle, hsame.trans hcontent, fun e he => ?_⟩
    exact (hended e he).elim (hopen e) id

/-- A copy goes on, and the other destinations stay as they are. -/
theorem Inv.write (h : Inv files s) {i offset : Nat} {d : Destination}
    (hphase : s.phase i = .copying d offset) (n : Nat) :
    Inv files ((s.write d offset n).setPhase i
      (.copying d (offset + ((d.data.drop offset).take n).length))) := by
  have hok := h.phase i
  rw [hphase] at hok
  obtain ⟨hd, htask, hle, hcontent, hopen⟩ := hok
  have hself : (s.write d offset n).content d.dstPath =
      d.data.take (offset + ((d.data.drop offset).take n).length) := by
    rw [content_write hle hcontent, Function.update_self]
  have hother : ∀ e ∈ s.destinations, e ≠ d →
      (s.write d offset n).content e.dstPath = s.content e.dstPath := by
    intro e he hne
    rw [content_write hle hcontent, Function.update_of_ne]
    exact fun hpath => hne (h.eq_of_dstPath he hd hpath)
  have hfits : offset + ((d.data.drop offset).take n).length ≤ d.data.length := by
    rw [List.length_take, List.length_drop]
    omega
  refine
    { distinct := h.distinct
      holds := fun e he => ?_
      whole := fun e he => ?_
      posted := h.posted
      todo := h.todo
      phase := fun j => ?_
      named := h.named
      created := h.created
      ended_mem := h.ended_mem }
  · by_cases hed : e = d
    · subst hed
      exact hself ▸ List.take_prefix _ _
    · exact (hother e he hed).symm ▸ h.holds e he
  · exact (hother _ (h.ended_mem e he) (hopen e he)).trans (h.whole e he)
  · show PhaseOk files (s.write d offset n) j (Function.update s.phase i _ j)
    by_cases hj : j = i
    · subst hj
      rw [Function.update_self]
      exact ⟨hd, htask, hfits, hself, hopen⟩
    · rw [Function.update_of_ne hj]
      refine (h.phase j).frame (List.Subset.refl _) (fun _ _ _ hfree => hfree) fun e he hetask => ?_
      have hne : e ≠ d := fun heq => hj (hetask.symm.trans (heq ▸ htask))
      exact ⟨hother e he hne, fun _ he' => Or.inl he'⟩

theorem Inv.finish (h : Inv files s) {i : Nat} {d : Destination} {posted : Option GoString}
    (hphase : s.phase i = .copying d d.data.length)
    (hposted : ∀ body, posted = some body → body = s.content d.dstPath) :
    Inv files { s.setPhase i .next with ended := s.ended ++ [⟨d, posted⟩] } := by
  have hok := h.phase i
  rw [hphase] at hok
  obtain ⟨hd, htask, -, hcontent, -⟩ := hok
  rw [List.take_length] at hcontent
  have hended : ∀ e ∈ s.ended ++ [(⟨d, posted⟩ : Ended)], e ∈ s.ended ∨ e = ⟨d, posted⟩ :=
    fun e he => (List.mem_append.mp he).imp_right List.mem_singleton.mp
  refine
    { distinct := h.distinct
      holds := h.holds
      whole := fun e he => ?_
      posted := fun e he body hbody => ?_
      todo := h.todo
      phase := fun j => ?_
      named := h.named
      created := h.created
      ended_mem := fun e he => ?_ }
  · rcases hended e he with he | rfl
    · exact h.whole e he
    · exact hcontent
  · rcases hended e he with he | rfl
    · exact h.posted e he body hbody
    · exact (hposted body hbody).trans hcontent
  · show PhaseOk files _ j (Function.update s.phase i .next j)
    by_cases hj : j = i
    · rw [hj, Function.update_self]
      trivial
    · rw [Function.update_of_ne hj]
      refine (h.phase j).frame (List.Subset.refl _) (fun _ _ _ hfree => hfree) fun e _ hetask => ?_
      refine ⟨rfl, fun e' he' => (hended e' he').imp_right ?_⟩
      rintro rfl heq
      exact hj (hetask.symm.trans (heq ▸ htask))
  · rcases hended e he with he | rfl
    · exact h.ended_mem e he
    · exact hd

theorem task_afterCreate (lineLimit : Nat → Int) (i : Nat) (filePath src dstPath : GoString) :
    (afterCreate lineLimit i filePath src dstPath).1.task = i ∧
      (afterCreate lineLimit i filePath src dstPath).1.filePath = filePath ∧
      (afterCreate lineLimit i filePath src dstPath).1.dstPath = dstPath := by
  unfold afterCreate
  split <;> exact ⟨rfl, rfl, rfl⟩

theorem phase_afterCreate (lineLimit : Nat → Int) (i : Nat) (filePath src dstPath : GoString) :
    (afterCreate lineLimit i filePath src dstPath).2 = .next ∨
      (afterCreate lineLimit i filePath src dstPath).2 =
        .copying (afterCreate lineLimit i filePath src dstPath).1 0 := by
  unfold afterCreate
  split
  · exact Or.inl rfl
  · exact Or.inr rfl

theorem mem_names_create {dstPath q : GoString} :
    q ∈ (s.create dstPath).names ↔ q = dstPath ∨ q ∈ s.names := by
  show q ∈ (if s.names.contains dstPath then s.names else s.names ++ [dstPath]) ↔ _
  split
  · rename_i hthere
    refine (or_iff_right_of_imp ?_).symm
    rintro rfl
    exact List.contains_iff_mem.mp hthere
  · rw [List.mem_append, List.mem_singleton, or_comm]

theorem content_create_self (s : State) (dstPath : GoString) :
    (s.create dstPath).content dstPath = [] := Function.update_self ..

theorem content_create_of_ne {dstPath q : GoString} (hq : q ≠ dstPath) :
    (s.create dstPath).content q = s.content q := Function.update_of_ne hq ..

/-- Another task looks for a name with another base name. -/
theorem free_of_create (hnames : NoSharedName files) {i j k : Nat} (hj : j ≠ i)
    {filePath filePath' : GoString} (hfile : filePath ∈ files i) (hfile' : filePath' ∈ files j)
    {d : Destination} (hdst : d.dstPath = uniqueLogPath k (base filePath)) (l : Nat)
    (hfree : uniqueLogPath l (base filePath') ∉ s.destinations.map Destination.dstPath) :
    uniqueLogPath l (base filePath') ∉ (s.destinations ++ [d]).map Destination.dstPath := by
  rw [List.map_append, List.mem_append, List.map_singleton, List.mem_singleton]
  rintro (hmem | heq)
  · exact hfree hmem
  · exact hnames j i _ _ hj hfile' hfile (eq_of_uniqueLogPath (heq.trans hdst))

/-- A file is created under a name that no other task can have found. -/
theorem Inv.create (h : Inv files s) (hnames : NoSharedName files) (lineLimit : Nat → Int)
    {i : Nat} {filePath src dstPath : GoString}
    (hphase : s.phase i = .creating filePath src dstPath) :
    Inv files
      { (s.create dstPath).setPhase i (afterCreate lineLimit i filePath src dstPath).2 with
        destinations := s.destinations ++ [(afterCreate lineLimit i filePath src dstPath).1] } := by
  have hok := h.phase i
  rw [hphase] at hok
  obtain ⟨hfile, ⟨k, hk⟩, hnew⟩ := hok
  obtain ⟨htask, hpath, hdst⟩ := task_afterCreate lineLimit i filePath src dstPath
  have hgoes := phase_afterCreate lineLimit i filePath src dstPath
  generalize (afterCreate lineLimit i filePath src dstPath).1 = d at htask hpath hdst hgoes ⊢
  generalize (afterCreate lineLimit i filePath src dstPath).2 = p at hgoes ⊢
  have hmem : ∀ e ∈ s.destinations ++ [d], e ∈ s.destinations ∨ e = d :=
    fun e he => (List.mem_append.mp he).imp_right List.mem_singleton.mp
  have hne : ∀ e ∈ s.destinations, e.dstPath ≠ dstPath := fun e he heq =>
    hnew (List.mem_map.mpr ⟨e, he, heq⟩)
  have hself : (s.create dstPath).content d.dstPath = [] := hdst ▸ content_create_self s dstPath
  refine
    { distinct := ?_
      holds := fun e he => ?_
      whole := fun e he => ?_
      posted := h.posted
      todo := h.todo
      phase := fun j => ?_
      named := fun e he => ?_
      created := fun e he => ?_
      ended_mem := fun e he => List.mem_append_left _ (h.ended_mem e he) }
  · rw [List.map_append, List.map_singleton, hdst]
    exact List.nodup_append_comm.mp (List.nodup_cons.mpr ⟨hnew, h.distinct⟩)
  · rcases hmem e he with he | rfl
    · exact (content_create_of_ne (hne e he)).symm ▸ h.holds e he
    · exact hself.symm ▸ List.nil_prefix
  · exact (content_create_of_ne (hne _ (h.ended_mem e he))).trans (h.whole e he)
  · show PhaseOk files _ j (Function.update s.phase i p j)
    by_cases hj : j = i
    · subst hj
      rw [Function.update_self]
      rcases hgoes with rfl | rfl
      · trivial
      · refine ⟨List.mem_append_right _ (List.mem_singleton_self _), htask, Nat.zero_le _, hself,
          fun e he heq => ?_⟩
        exact hne _ (h.ended_mem e he) (heq ▸ hdst)
    · rw [Function.update_of_ne hj]
      exact (h.phase j).frame (List.subset_append_left _ _)
        (fun filePath' hfile' => free_of_create hnames hj hfile hfile' (hdst.trans hk))
        fun e he _ => ⟨content_create_of_ne (hne e he), fun _ he' => Or.inl he'⟩
  · rcases hmem e he with he | rfl
    · exact h.named e he
    · rw [htask, hpath, hdst]
      exact ⟨hfile, k, hk⟩
  · rcases hmem e he with he | rfl
    · exact mem_names_create.mpr (Or.inr (h.created e he))
    · exact mem_names_create.mpr (Or.inl hdst)

theorem inv_step (hnames : NoSharedName files) {lineLimit : Nat → Int} {t : State} {a : Action}
    (h : Inv files s) (hstep : step lineLimit s a = some t) : Inv files t := by
  cases moves_of_step hstep with
  | skips hphase htodo => exact h.setTodo htodo
  | @opens i filePath src rest hphase htodo =>
    refine (h.setTodo htodo).setPhase ?_
    show filePath ∈ files i
    exact h.todo i (htodo ▸ List.mem_cons_self)
  | @taken i counter filePath src hphase htaken =>
    have hok := h.phase i
    rw [hphase] at hok
    exact h.setPhase hok
  | @free i counter filePath src hphase hfree =>
    have hok := h.phase i
    rw [hphase] at hok
    refine h.setPhase ⟨hok, ⟨counter, rfl⟩, fun hmem => ?_⟩
    obtain ⟨d, hd, hdst⟩ := List.mem_map.mp hmem
    exact hfree (hdst ▸ h.created d hd)
  | creates hphase => exact h.create hnames lineLimit hphase
  | writes hphase => exact h.write hphase _
  | stops hphase => exact h.setPhase trivial
  | finishes hphase hposted => exact h.finish hphase hposted

end Invariant

/-! ## Logs of one base name -/

section Clash

variable {lineLimit : Nat → Int} {s : State} {i : Nat}

theorem setPhase_setPhase (s : State) (i : Nat) (p q : Phase) :
    (s.setPhase i p).setPhase i q = s.setPhase i q := by
  simp [State.setPhase]

theorem step_check {filePath src : GoString} {counter : Nat}
    (hphase : s.phase i = .searching filePath src counter) :
    step lineLimit s (.check i) =
      if s.names.contains (uniqueLogPath counter (base filePath)) then
        some (s.setPhase i (.searching filePath src (counter + 1)))
      else
        some (s.setPhase i (.creating filePath src (uniqueLogPath counter (base filePath)))) := by
  simp only [step, hphase]

/-- A task that is alone finds the name that the loop of the source finds. -/
theorem run_checks {filePath src : GoString} {m counter : Nat}
    (hphase : s.phase i = .searching filePath src counter)
    (htaken : ∀ l < m, uniqueLogPath (counter + l) (base filePath) ∈ s.names)
    (hfree : uniqueLogPath (counter + m) (base filePath) ∉ s.names) :
    Transition.run (step lineLimit) s (List.replicate (m + 1) (.check i)) =
      some (s.setPhase i
        (.creating filePath src (uniqueLogPath (counter + m) (base filePath)))) := by
  induction m generalizing s counter with
  | zero =>
    have hno : ¬ s.names.contains (uniqueLogPath counter (base filePath)) = true := fun h =>
      hfree (List.contains_iff_mem.mp h)
    rw [List.replicate_succ, Transition.run_cons (by rw [step_check hphase, if_neg hno])]
    rfl
  | succ m ih =>
    have hyes : s.names.contains (uniqueLogPath counter (base filePath)) = true :=
      List.contains_iff_mem.mpr (htaken 0 (Nat.succ_pos m))
    rw [List.replicate_succ, Transition.run_cons (by rw [step_check hphase, if_pos hyes])]
    have hnext : (s.setPhase i (.searching filePath src (counter + 1))).phase i =
        .searching filePath src (counter + 1) := Function.update_self ..
    have hcounter : counter + 1 + m = counter + (m + 1) := by omega
    rw [ih hnext (fun l hl => ?_) (by rw [hcounter]; exact hfree), setPhase_setPhase, hcounter]
    have hl' := htaken (l + 1) (Nat.succ_lt_succ hl)
    rw [← Nat.add_assoc, Nat.add_right_comm] at hl'
    exact hl'

/-- The names before the one that `generateUniqueLogPath` returns are taken. -/
theorem generateUniqueLogPath_eq (names : List GoString) (b : GoString) :
    ∃ m, generateUniqueLogPath names b = uniqueLogPath (1 + m) b ∧
      ∀ l < m, uniqueLogPath (1 + l) b ∈ names := by
  let free := (List.range names.length).findIdx fun i => !names.contains (uniqueLogPath (i + 1) b)
  refine ⟨free, congrArg (uniqueLogPath · b) (Nat.add_comm _ _), fun l hl => ?_⟩
  have hnot := List.not_of_lt_findIdx hl
  rw [List.getElem_range, Bool.not_eq_false'] at hnot
  rw [Nat.add_comm]
  exact List.contains_iff_mem.mp hnot

variable (lineLimit)

/-- A task can get to any of its logs and find a name for it. -/
theorem exists_run_to_creating {filePath : GoString} {before rest : List GoString}
    (hphase : s.phase i = .next) (htodo : s.todo i = before ++ filePath :: rest) :
    ∃ as, Transition.run (step lineLimit) s as =
      some (State.setPhase { s with todo := Function.update s.todo i rest } i
        (.creating filePath [] (generateUniqueLogPath s.names (base filePath)))) := by
  induction before generalizing s with
  | nil =>
    obtain ⟨m, hm, htaken⟩ := generateUniqueLogPath_eq s.names (base filePath)
    have hfree := generateUniqueLogPath_not_mem s.names (base filePath)
    rw [hm] at hfree
    have hopens : step lineLimit s (.opens i (some [])) =
        some (State.setPhase { s with todo := Function.update s.todo i rest } i
          (.searching filePath [] 1)) := by
      simp only [step, hphase, htodo, List.nil_append]
    generalize hs' : State.setPhase _ i (.searching filePath [] 1) = s' at hopens
    have hsearch : s'.phase i = .searching filePath [] 1 := by
      rw [← hs']
      exact Function.update_self ..
    have hnames : s'.names = s.names := by
      rw [← hs']
      rfl
    rw [← hnames] at htaken hfree
    refine ⟨.opens i (some []) :: List.replicate (m + 1) (.check i), ?_⟩
    rw [Transition.run_cons hopens, run_checks hsearch htaken hfree, ← hs', setPhase_setPhase, hm]
  | cons f before ih =>
    have hskips : step lineLimit s (.opens i none) =
        some { s with todo := Function.update s.todo i (before ++ filePath :: rest) } := by
      simp only [step, hphase, htodo, List.cons_append]
    obtain ⟨as, has⟩ := ih
      (s := { s with todo := Function.update s.todo i (before ++ filePath :: rest) }) hphase
      (Function.update_self ..)
    refine ⟨.opens i none :: as, ?_⟩
    rw [Transition.run_cons hskips, has, Function.update_idem]

theorem step_create {filePath src dstPath : GoString}
    (hphase : s.phase i = .creating filePath src dstPath) :
    step lineLimit s (.create i true) =
      some { (s.create dstPath).setPhase i (afterCreate lineLimit i filePath src dstPath).2 with
        destinations :=
          s.destinations ++ [(afterCreate lineLimit i filePath src dstPath).1] } := by
  simp only [step, hphase, afterCreate, if_true]
  split <;> rfl

theorem exists_clash (names : List GoString)
    (content : GoString → GoString) {files : Nat → List GoString} {i j : Nat} {f g : GoString}
    (hij : i ≠ j) (hf : f ∈ files i) (hg : g ∈ files j) (hbase : base f = base g) :
    ∃ as s, Transition.run (step lineLimit) (init names content files) as = some s ∧
      ¬ OneLogEach s := by
  obtain ⟨beforeF, restF, hfilesF⟩ := List.append_of_mem hf
  obtain ⟨beforeG, restG, hfilesG⟩ := List.append_of_mem hg
  obtain ⟨as, has⟩ := exists_run_to_creating lineLimit
    (s := init names content files) (i := i) rfl hfilesF
  generalize hs₁ : State.setPhase _ i _ = s₁ at has
  have hphase₁ : s₁.phase j = .next := by
    rw [← hs₁]
    exact Function.update_of_ne hij.symm ..
  have htodo₁ : s₁.todo j = beforeG ++ g :: restG := by
    rw [← hs₁]
    exact (Function.update_of_ne hij.symm ..).trans hfilesG
  have hnames₁ : s₁.names = names := by rw [← hs₁]; rfl
  obtain ⟨bs, hbs⟩ := exists_run_to_creating lineLimit hphase₁ htodo₁
  rw [hnames₁, ← hbase] at hbs
  generalize hs₂ : State.setPhase _ j _ = s₂ at hbs
  have hphaseI : s₂.phase i = .creating f [] (generateUniqueLogPath names (base f)) := by
    rw [← hs₂, ← hs₁]
    exact (Function.update_of_ne hij ..).trans (Function.update_self ..)
  have hphaseJ : s₂.phase j = .creating g [] (generateUniqueLogPath names (base f)) := by
    rw [← hs₂]
    exact Function.update_self ..
  have hcreateI := step_create lineLimit hphaseI
  generalize hs₃ : ({ State.setPhase _ i _ with destinations := _ } : State) = s₃ at hcreateI
  have hphaseJ₃ : s₃.phase j = .creating g [] (generateUniqueLogPath names (base f)) := by
    rw [← hs₃]
    exact (Function.update_of_ne hij.symm ..).trans hphaseJ
  have hcreateJ := step_create lineLimit hphaseJ₃
  generalize hs₄ : ({ State.setPhase _ j _ with destinations := _ } : State) = s₄ at hcreateJ
  refine ⟨as ++ (bs ++ [.create i true, .create j true]), s₄, ?_, fun h => ?_⟩
  · rw [Transition.run_append, has, Option.bind_some, Transition.run_append, hbs,
      Option.bind_some, Transition.run_cons hcreateI, Transition.run_cons hcreateJ]
    rfl
  · have hdistinct := h.distinct
    rw [← hs₄, ← hs₃] at hdistinct
    simp only [List.map_append, List.map_singleton, List.append_assoc] at hdistinct
    have hpair := (List.nodup_append.mp hdistinct).2.1
    rw [(task_afterCreate ..).2.2, (task_afterCreate ..).2.2] at hpair
    exact (List.nodup_cons.mp hpair).1 (List.mem_singleton_self _)

end Clash

/-- Whatever the order of the steps, every destination has one log alone if and only if no two
tasks have logs of one base name. -/
theorem oneLogEach_iff (lineLimit : Nat → Int) (names : List GoString)
    (content : GoString → GoString) (files : Nat → List GoString) :
    (∀ as s, Transition.run (step lineLimit) (init names content files) as = some s →
        OneLogEach s) ↔ NoSharedName files := by
  constructor
  · intro h i j f g hij hf hg hbase
    obtain ⟨as, s, hrun, hclash⟩ := exists_clash lineLimit names content hij hf hg hbase
    exact hclash (h as s hrun)
  · intro hnames as s hrun
    have hinv := Transition.run_invariant (fun _ _ _ hI hstep => inv_step hnames hI hstep)
      (inv_init names content files) hrun
    exact hinv.toOneLogEach

/-- The task for `appLog` and the one for `appLogs`, with logs of one name in two directories. -/
def twoApps : Nat → List GoString
  | 0 => [str "/srv/a/app.log"]
  | 1 => [str "/srv/b/app.log"]
  | _ => []

/-- Both logs go to the file `1.appLogs.app.log`. -/
theorem twoApps_clash :
    ¬ ∀ (lineLimit : Nat → Int) (names : List GoString) (content : GoString → GoString)
      (files : Nat → List GoString) (as : List Action) (s : State),
      Transition.run (step lineLimit) (init names content files) as = some s → OneLogEach s := by
  intro h
  have hone := h (fun _ => 1000) [] (fun _ => []) twoApps
    [.opens 0 (some (str "a")), .opens 1 (some (str "b")), .check 0, .check 1, .create 0 true,
      .create 1 true] _ rfl
  exact absurd hone.distinct (by decide)

end YcAgent.Capture.AppLog.Race
