import YcAgent.Base.Decimal
import YcAgent.Base.FilePath
import YcAgent.Base.Run
import Mathlib.Data.List.Sort

/-!
# The files that a process holds open

`GetOpenedFilesByProcess` walks the directory of the descriptors of a process, which goes on
and may close any of them between two steps of the walk. `filepath.Walk` lists the directory
once and looks at each name with a call of its own; the function then reads the link with
another one. A descriptor that is gone at the first call is skipped.

The process stays, so that its directory is there and can be listed.
-/
namespace YcAgent.Capture.OpenedFiles

open Go Go.FilePath

/-- The open descriptors, each with the file that it is a link to. -/
structure Table where
  entries : List (Nat × GoString)
  nodup : (entries.map Prod.fst).Nodup

def Table.target (t : Table) (fd : Nat) : Option GoString :=
  (t.entries.find? fun e => e.1 = fd).map Prod.snd

def Table.close (t : Table) (fd : Nat) : Table where
  entries := t.entries.filter fun e => e.1 ≠ fd
  nodup := t.nodup.sublist (List.filter_sublist.map _)

/-- `readDirNames`: the names are sorted as texts. -/
def Table.readDirNames (t : Table) : List Nat :=
  (t.entries.map Prod.fst).insertionSort fun a b => List.lex (decimal b) (decimal a) = false

/-- Where the call is: before a name is looked at, before the link is read, or behind its end. -/
inductive Phase where
  | stat
  | list
  | walking (fd : Nat) (names : List Nat)
  | reading (fd : Nat) (names : List Nat)
  | returned (err : Option GoString)

structure State where
  table : Table
  phase : Phase
  openedFiles : List GoString

/-- The process closes a descriptor, or the call makes its next step. -/
inductive Action where
  | close (fd : Nat)
  | stat
  | list
  | lstat
  | readlink
  deriving DecidableEq

def init (table : Table) : State := ⟨table, .stat, []⟩

def Phase.next : List Nat → Phase
  | [] => .returned none
  | fd :: names => .walking fd names

def dir (pid : Int) : GoString := joinPath [str "/proc", itoa pid, str "fd"]

def readlinkErr (pid : Int) (fd : Nat) : GoString :=
  str "readlink " ++ joinPath [dir pid, decimal fd] ++ str ": no such file or directory"

def step (pid : Int) (s : State) : Action → Option State
  | .close fd =>
    if (s.table.target fd).isSome then some { s with table := s.table.close fd } else none
  | .stat =>
    match s.phase with
    | .stat => some { s with phase := .list }
    | _ => none
  | .list =>
    match s.phase with
    | .list => some { s with phase := .next s.table.readDirNames }
    | _ => none
  | .lstat =>
    match s.phase with
    | .walking fd names =>
      match s.table.target fd with
      | none => some { s with phase := .next names }
      | some _ => some { s with phase := .reading fd names }
    | _ => none
  | .readlink =>
    match s.phase with
    | .reading fd names =>
      match s.table.target fd with
      | none => some { s with phase := .returned (some (readlinkErr pid fd)) }
      | some dst => some { s with phase := .next names, openedFiles := s.openedFiles ++ [dst] }
    | _ => none

/-- Where the call has returned, its error is nil and it found the file of every descriptor
that is still open. -/
def Tolerates (s : State) : Prop :=
  ∀ err, s.phase = .returned err → err = none ∧ ∀ e ∈ s.table.entries, e.2 ∈ s.openedFiles

/-- A link is read while its descriptor is open. -/
def ReadsOpen (s : State) (a : Action) (_ : State) : Prop :=
  a = .readlink → ∀ fd names, s.phase = .reading fd names → (s.table.target fd).isSome = true

section Tables

variable {t : Table} {fd : Nat}

theorem target_eq_some_iff {dst : GoString} : t.target fd = some dst ↔ (fd, dst) ∈ t.entries := by
  rw [Table.target, Option.map_eq_some_iff]
  constructor
  · intro h
    obtain ⟨e, he, rfl⟩ := h
    have hfd : e.1 = fd := by simpa using List.find?_some he
    rw [← hfd]
    exact List.mem_of_find?_eq_some he
  · intro h
    cases hfind : t.entries.find? fun e => e.1 = fd with
    | none =>
      have hno := List.find?_eq_none.mp hfind _ h
      exact absurd (decide_eq_true rfl) hno
    | some e =>
      have hfd : e.1 = fd := by simpa using List.find?_some hfind
      have hsame := List.inj_on_of_nodup_map t.nodup (List.mem_of_find?_eq_some hfind) h hfd
      exact ⟨e, rfl, congrArg Prod.snd hsame⟩

theorem mem_close {e : Nat × GoString} :
    e ∈ (t.close fd).entries ↔ e ∈ t.entries ∧ e.1 ≠ fd := by
  rw [Table.close, List.mem_filter, decide_eq_true_eq]

theorem mem_readDirNames {e : Nat × GoString} (he : e ∈ t.entries) : e.1 ∈ t.readDirNames :=
  (List.perm_insertionSort _ _).mem_iff.mpr (List.mem_map_of_mem he)

end Tables

/-! ## Steps -/

/-- What one step does, from where. -/
inductive Moves (pid : Int) (s : State) : Action → State → Prop where
  | closes {fd : Nat} (hopen : (s.table.target fd).isSome = true) :
      Moves pid s (.close fd) { s with table := s.table.close fd }
  | found (hphase : s.phase = .stat) : Moves pid s .stat { s with phase := .list }
  | listed (hphase : s.phase = .list) :
      Moves pid s .list { s with phase := .next s.table.readDirNames }
  | skips {fd : Nat} {names : List Nat} (hphase : s.phase = .walking fd names)
      (hgone : s.table.target fd = none) : Moves pid s .lstat { s with phase := .next names }
  | looks {fd : Nat} {names : List Nat} (hphase : s.phase = .walking fd names) :
      Moves pid s .lstat { s with phase := .reading fd names }
  | fails {fd : Nat} {names : List Nat} (hphase : s.phase = .reading fd names)
      (hgone : s.table.target fd = none) :
      Moves pid s .readlink { s with phase := .returned (some (readlinkErr pid fd)) }
  | reads {fd : Nat} {names : List Nat} {dst : GoString} (hphase : s.phase = .reading fd names)
      (htarget : s.table.target fd = some dst) :
      Moves pid s .readlink
        { s with phase := .next names, openedFiles := s.openedFiles ++ [dst] }

theorem moves_of_step {pid : Int} {s t : State} {a : Action} (hstep : step pid s a = some t) :
    Moves pid s a t := by
  cases a with
  | close fd =>
    simp only [step] at hstep
    split at hstep
    · rename_i hopen
      cases hstep
      exact .closes hopen
    · cases hstep
  | stat =>
    simp only [step] at hstep
    split at hstep
    · rename_i hphase
      cases hstep
      exact .found hphase
    · cases hstep
  | list =>
    simp only [step] at hstep
    split at hstep
    · rename_i hphase
      cases hstep
      exact .listed hphase
    · cases hstep
  | lstat =>
    simp only [step] at hstep
    split at hstep
    · rename_i hphase
      split at hstep
      · rename_i hgone
        cases hstep
        exact .skips hphase hgone
      · cases hstep
        exact .looks hphase
    · cases hstep
  | readlink =>
    simp only [step] at hstep
    split at hstep
    · rename_i hphase
      split at hstep
      · rename_i hgone
        cases hstep
        exact .fails hphase hgone
      · rename_i htarget
        cases hstep
        exact .reads hphase htarget
    · cases hstep

/-! ## What is found -/

/-- The call will still look at the descriptor. -/
def Phase.Left : Phase → Nat → Prop
  | .stat, _ | .list, _ => True
  | .walking fd names, n | .reading fd names, n => n ∈ fd :: names
  | .returned _, _ => False

theorem left_next {names : List Nat} {n : Nat} (h : n ∈ names) : (Phase.next names).Left n := by
  cases names with
  | nil => cases h
  | cons fd names => exact h

theorem err_next {names : List Nat} {err : Option GoString}
    (h : Phase.next names = .returned err) : err = none := by
  cases names with
  | nil => exact (Phase.returned.inj h).symm
  | cons fd names => cases h

/-- Nothing that is still open was passed over, and no error came up. -/
structure Inv (s : State) : Prop where
  err : ∀ err, s.phase = .returned err → err = none
  covers : ∀ e ∈ s.table.entries, s.phase.Left e.1 ∨ e.2 ∈ s.openedFiles

theorem Inv.tolerates {s : State} (h : Inv s) : Tolerates s := by
  intro err hphase
  refine ⟨h.err err hphase, fun e he => ?_⟩
  rcases h.covers e he with hleft | hmem
  · rw [hphase] at hleft
    exact hleft.elim
  · exact hmem

theorem inv_init (table : Table) : Inv (init table) :=
  ⟨nofun, fun _ _ => Or.inl trivial⟩

theorem inv_step {pid : Int} {s t : State} {a : Action} (h : Inv s)
    (hstep : step pid s a = some t) (hopen : ReadsOpen s a t) : Inv t := by
  cases moves_of_step hstep with
  | closes => exact ⟨h.err, fun e he => h.covers e (mem_close.mp he).1⟩
  | found => exact ⟨nofun, fun _ _ => Or.inl trivial⟩
  | listed => exact ⟨fun _ => err_next, fun e he => Or.inl (left_next (mem_readDirNames he))⟩
  | skips hphase hgone =>
    refine ⟨fun _ => err_next, fun e he => ?_⟩
    have hcovers := h.covers e he
    rw [hphase] at hcovers
    refine hcovers.imp_left fun hleft => left_next ((List.mem_cons.mp hleft).resolve_left ?_)
    -- the descriptor that is skipped is not open
    intro hfd
    have hthere := target_eq_some_iff.mpr he
    rw [hfd, hgone] at hthere
    cases hthere
  | looks hphase =>
    refine ⟨nofun, fun e he => ?_⟩
    have hcovers := h.covers e he
    rw [hphase] at hcovers
    exact hcovers
  | fails hphase hgone =>
    have hthere := hopen rfl _ _ hphase
    rw [hgone] at hthere
    cases hthere
  | reads hphase htarget =>
    refine ⟨fun _ => err_next, fun e he => ?_⟩
    have hcovers := h.covers e he
    rw [hphase] at hcovers
    rcases hcovers with hleft | hmem
    · rcases List.mem_cons.mp hleft with hfd | hleft
      · have hdst := target_eq_some_iff.mpr he
        rw [hfd, htarget] at hdst
        obtain rfl := Option.some.inj hdst
        exact Or.inr (List.mem_append_right _ (List.mem_singleton_self _))
      · exact Or.inl (left_next hleft)
    · exact Or.inr (List.mem_append_left _ hmem)

/-- A link whose descriptor is gone makes the call return an error. -/
theorem readsOpen_of_tolerates {pid : Int} {s t : State} {a : Action}
    (hstep : step pid s a = some t) (ht : Tolerates t) : ReadsOpen s a t := by
  intro ha fd names hphase
  subst ha
  cases moves_of_step hstep with
  | fails =>
    have hnil := (ht _ rfl).1
    cases hnil
  | reads hphase' htarget =>
    obtain ⟨rfl, rfl⟩ := Phase.reading.inj (hphase.symm.trans hphase')
    exact Option.isSome_iff_exists.mpr ⟨_, htarget⟩

/-! ## The call returns -/

def Phase.left (open' : Nat) : Phase → Nat
  | .stat => 2 * open' + 2
  | .list => 2 * open' + 1
  | .walking _ names => 2 * names.length + 2
  | .reading _ names => 2 * names.length + 1
  | .returned _ => 0

/-- The steps that are left at most, those of the process included. -/
def State.left (s : State) : Nat :=
  s.table.entries.length + s.phase.left s.table.entries.length

@[simp] theorem left_stat (n : Nat) : Phase.stat.left n = 2 * n + 2 := rfl

@[simp] theorem left_list (n : Nat) : Phase.list.left n = 2 * n + 1 := rfl

@[simp] theorem left_walking (n fd : Nat) (names : List Nat) :
    (Phase.walking fd names).left n = 2 * names.length + 2 := rfl

@[simp] theorem left_reading (n fd : Nat) (names : List Nat) :
    (Phase.reading fd names).left n = 2 * names.length + 1 := rfl

@[simp] theorem left_returned (n : Nat) (err : Option GoString) :
    (Phase.returned err).left n = 0 := rfl

@[simp] theorem left_phase_next (n : Nat) (names : List Nat) :
    (Phase.next names).left n = 2 * names.length := by
  cases names with
  | nil => rfl
  | cons fd names =>
    show 2 * names.length + 2 = 2 * (names.length + 1)
    omega

theorem length_readDirNames (t : Table) : t.readDirNames.length = t.entries.length := by
  rw [Table.readDirNames, (List.perm_insertionSort _ _).length_eq, List.length_map]

theorem length_close {t : Table} {fd : Nat} (h : (t.target fd).isSome = true) :
    (t.close fd).entries.length < t.entries.length := by
  obtain ⟨dst, hdst⟩ := Option.isSome_iff_exists.mp h
  refine List.length_filter_lt_length_iff_exists.mpr ⟨_, target_eq_some_iff.mp hdst, ?_⟩
  simp

theorem left_mono (p : Phase) {m n : Nat} (h : m ≤ n) : p.left m ≤ p.left n := by
  cases p with
  | stat => exact Nat.add_le_add_right (Nat.mul_le_mul_left 2 h) 2
  | list => exact Nat.add_le_add_right (Nat.mul_le_mul_left 2 h) 1
  | walking fd names => exact Nat.le_refl _
  | reading fd names => exact Nat.le_refl _
  | returned err => exact Nat.le_refl _

theorem left_step {pid : Int} {s t : State} {a : Action} (hstep : step pid s a = some t) :
    t.left < s.left := by
  cases moves_of_step hstep with
  | @closes fd hopen =>
    have hless := length_close hopen
    have hphase := left_mono s.phase (Nat.le_of_lt hless)
    show (s.table.close fd).entries.length + s.phase.left (s.table.close fd).entries.length <
      s.table.entries.length + s.phase.left s.table.entries.length
    omega
  | found hphase =>
    simp only [State.left, hphase, left_stat, left_list]
    omega
  | listed hphase =>
    simp only [State.left, hphase, left_list, left_phase_next, length_readDirNames]
    omega
  | skips hphase =>
    simp only [State.left, hphase, left_walking, left_phase_next]
    omega
  | looks hphase =>
    simp only [State.left, hphase, left_walking, left_reading]
    omega
  | fails hphase =>
    simp only [State.left, hphase, left_reading, left_returned]
    omega
  | reads hphase =>
    simp only [State.left, hphase, left_reading, left_phase_next]
    omega

/-- Only a call that has returned has no next step. -/
theorem returned_of_stuck {pid : Int} {s : State} (h : ∀ a, step pid s a = none) :
    ∃ err, s.phase = .returned err := by
  obtain ⟨table, phase, openedFiles⟩ := s
  cases phase with
  | stat => exact nomatch h .stat
  | list => exact nomatch h .list
  | walking fd names =>
    have hlstat := h .lstat
    cases htarget : table.target fd <;> simp [step, htarget] at hlstat
  | reading fd names =>
    have hreadlink := h .readlink
    cases htarget : table.target fd <;> simp [step, htarget] at hreadlink
  | returned err => exact ⟨err, rfl⟩

theorem call_returns (pid : Int) (table : Table) {as : List Action} {s : State}
    (hrun : Transition.run (step pid) (init table) as = some s) :
    as.length ≤ 3 * table.entries.length + 2 ∧
      ((∀ a, step pid s a = none) → ∃ err, s.phase = .returned err) := by
  refine ⟨?_, returned_of_stuck⟩
  have hbound := Transition.length_add_le_of_decreasing (I := fun _ => True) (m := State.left)
    (fun _ _ _ _ hstep => ⟨trivial, left_step hstep⟩) trivial hrun
  have hinit : (init table).left = 3 * table.entries.length + 2 := by
    show table.entries.length + (2 * table.entries.length + 2) = _
    omega
  omega

/-- Every call returns, and it tolerates what the process closes if and only if no descriptor is
closed after it was looked at and before its link is read. -/
theorem tolerates_iff (pid : Int) (table : Table) :
    (∀ as s, Transition.run (step pid) (init table) as = some s →
      as.length ≤ 3 * table.entries.length + 2 ∧
        ((∀ a, step pid s a = none) → ∃ err, s.phase = .returned err)) ∧
    ∀ as, Transition.Throughout (step pid) Tolerates (init table) as ↔
      Transition.Along (step pid) ReadsOpen (init table) as := by
  refine ⟨fun as s hrun => call_returns pid table hrun, fun as => ?_⟩
  apply Transition.throughout_iff_along (I := Inv) (J := fun _ => True)
  · exact fun _ _ _ hs hstep hopen => inv_step hs hstep hopen
  · exact fun _ hs => hs.tolerates
  · exact fun _ _ _ _ _ => trivial
  · exact fun _ _ _ _ hstep ht => readsOpen_of_tolerates hstep ht
  · exact inv_init table
  · trivial

/-! ## A process that closes nothing -/

/-- What the call finds where no descriptor is closed. -/
def Table.openedFiles (t : Table) : List GoString := t.readDirNames.filterMap t.target

theorem openedFiles_perm (t : Table) : t.openedFiles.Perm (t.entries.map Prod.snd) := by
  have hperm : t.openedFiles.Perm ((t.entries.map Prod.fst).filterMap t.target) :=
    (List.perm_insertionSort _ _).filterMap _
  have htargets : (t.entries.map Prod.fst).filterMap t.target = t.entries.map Prod.snd := by
    rw [List.filterMap_map]
    have hsome : ∀ e ∈ t.entries, (t.target ∘ Prod.fst) e = some e.2 :=
      fun e he => target_eq_some_iff.mpr he
    rw [List.filterMap_congr hsome, List.filterMap_eq_map']
  exact htargets ▸ hperm

theorem run_walk (pid : Int) (t : Table) {names : List Nat}
    (hnames : ∀ fd ∈ names, (t.target fd).isSome = true) (openedFiles : List GoString) :
    ∃ as, (∀ a ∈ as, a = .lstat ∨ a = .readlink) ∧
      Transition.run (step pid) ⟨t, .next names, openedFiles⟩ as =
        some ⟨t, .returned none, openedFiles ++ names.filterMap t.target⟩ := by
  induction names generalizing openedFiles with
  | nil => exact ⟨[], nofun, by rw [List.filterMap_nil, List.append_nil]; rfl⟩
  | cons fd names ih =>
    obtain ⟨dst, hdst⟩ := Option.isSome_iff_exists.mp (hnames fd List.mem_cons_self)
    obtain ⟨as, has, hrun⟩ :=
      ih (fun n hn => hnames n (List.mem_cons_of_mem _ hn)) (openedFiles ++ [dst])
    have hlstat : step pid ⟨t, .next (fd :: names), openedFiles⟩ .lstat =
        some ⟨t, .reading fd names, openedFiles⟩ := by
      simp only [step, Phase.next, hdst]
    have hreadlink : step pid ⟨t, .reading fd names, openedFiles⟩ .readlink =
        some ⟨t, .next names, openedFiles ++ [dst]⟩ := by
      simp only [step, hdst]
    refine ⟨.lstat :: .readlink :: as, ?_, ?_⟩
    · intro a ha
      rcases List.mem_cons.mp ha with rfl | ha
      · exact Or.inl rfl
      · rcases List.mem_cons.mp ha with rfl | ha
        · exact Or.inr rfl
        · exact has a ha
    · rw [Transition.run_cons hlstat, Transition.run_cons hreadlink, hrun,
        List.filterMap_cons_some hdst, List.append_assoc]
      rfl

/-- The steps of the call alone find all open files. -/
theorem run_quiet (pid : Int) (t : Table) :
    ∃ as, (∀ a ∈ as, ∀ fd, a ≠ .close fd) ∧
      Transition.run (step pid) (init t) as = some ⟨t, .returned none, t.openedFiles⟩ := by
  have hthere : ∀ fd ∈ t.readDirNames, (t.target fd).isSome = true := by
    intro fd hfd
    obtain ⟨e, he, rfl⟩ := List.mem_map.mp ((List.perm_insertionSort _ _).mem_iff.mp hfd)
    rw [target_eq_some_iff.mpr he]
    rfl
  obtain ⟨as, has, hrun⟩ := run_walk pid t hthere []
  refine ⟨.stat :: .list :: as, ?_, hrun⟩
  intro a ha fd
  rcases List.mem_cons.mp ha with rfl | ha
  · exact nofun
  · rcases List.mem_cons.mp ha with rfl | ha
    · exact nofun
    · rcases has a ha with rfl | rfl <;> exact nofun

/-- A socket and a log. -/
def socketAndLog : Table :=
  ⟨[(3, str "socket:[4711]"), (4, str "/var/log/app.log")], by decide⟩

/-- The socket is closed when its link is due, and the log is not found. -/
theorem socketAndLog_notFound :
    ¬ ∀ (pid : Int) (table : Table) (as : List Action),
      Transition.Throughout (step pid) Tolerates (init table) as := by
  intro h
  have hend := Transition.throughout_last
    (h 7 socketAndLog [.stat, .list, .lstat, .close 3, .readlink]) rfl
  exact absurd (hend _ rfl).1 (by decide)

end YcAgent.Capture.OpenedFiles
