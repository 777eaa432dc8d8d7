import YcAgent.Base.Environ
import YcAgent.Base.RangeMap
import YcAgent.Base.Scanner
import YcAgent.Base.Strconv
import YcAgent.Executils.Cmd

/-!
# Hooks on a command and its environment

A command without an environment inherits the agent's. `NewCommand` sets one where the global
`Env` is not empty, and puts the agent's in front; an `EnvHooker` appends to whatever is there,
so on a command without one its entries are all that the child gets.
-/
namespace YcAgent.Executils

open Go

/-- What `SudoHooker` finds: `/proc/<pid>/status`, the own user and whether there is a `sudo`. -/
structure SudoWorld where
  status : Int → Option GoString
  getuid : Int
  hasSudo : Bool

/-- `GetUid`; the error is that of opening the file. -/
def getUid (status : Option GoString) : Option GoString :=
  status.map fun content =>
    let tab : Byte := 9
    match (scannedLines content).find? fun line => hasPrefix line (str "Uid:") with
    | none => []
    | some line =>
      match (split line tab)[1]? with
      | none => []
      | some col => trimSpace col

/-- `SudoHooker`, of a system that is not Windows. -/
def sudoHooker (w : SudoWorld) (pid : Int) : Hooker where
  before command :=
    match getUid (w.status pid) with
    | none => command
    | some uid =>
      if uid.length < 1 then command
      else
        match atoi uid with
        | none => command
        | some id =>
          if id = w.getuid then command
          else if w.hasSudo then [str "sudo", str "-E", str "-u", str "#" ++ uid] ++ command
          else command
  after := id

/-- `fmt.Sprintf("%s=%s", k, v)`. -/
def envEntry (kv : GoString × GoString) : GoString := kv.1 ++ str "=" ++ kv.2

/-- `append`, which makes a list that was nil only where something is added. -/
def appendEnv (env : Option (List GoString)) (entries : List GoString) :
    Option (List GoString) :=
  if entries = [] then env else some (env.getD [] ++ entries)

/-- `EnvHooker`, a map that is ranged over in some order. -/
def envHooker (m : RangeMap GoString GoString) (order : RangeOrder GoString GoString) :
    Hooker where
  before := id
  after c := { c with env := appendEnv c.env ((order.visit m.entries).map envEntry) }

/-- The hookers that there are. -/
inductive Hook where
  | runAs (w : SudoWorld) (pid : Int)
  | env (m : RangeMap GoString GoString) (order : RangeOrder GoString GoString)

def Hook.hooker : Hook → Hooker
  | .runAs w pid => sudoHooker w pid
  | .env m order => envHooker m order

/-- What a hooker appends to the environment. -/
def Hook.entries : Hook → List GoString
  | .runAs _ _ => []
  | .env m order => (order.visit m.entries).map envEntry

def CmdManager.exec : CmdManager → Option ExecCmd
  | .waitCmd c => c.cmd
  | .cmd c => c.cmd

/-- The environment that a child is started with; names are folded on Windows, where `os/exec`
adds a missing `SYSTEMROOT`, which is left out here. -/
def childEnv (fold : GoString → GoString) (e : Env) (c : ExecCmd) : List GoString :=
  Environ.dedupEnv fold (c.env.getD e.environ)

/-- The child has the variables of the agent, under those of `Env` and the hookers. -/
def Inherits (fold : GoString → GoString) (e : Env) (hooks : List Hook) (c : ExecCmd) : Prop :=
  ∀ k, Environ.lookup fold (childEnv fold e c) k =
    Environ.lookup fold (e.environ ++ e.extra ++ hooks.flatMap Hook.entries) k

/-! ## What a hooked command runs -/

theorem before_ne_nil (hook : Hook) {cmd : Command} (h : cmd ≠ []) :
    hook.hooker.before cmd ≠ [] := by
  cases hook with
  | env m order => exact h
  | runAs w pid =>
    show (sudoHooker w pid).before cmd ≠ []
    simp only [sudoHooker]
    repeat' split
    all_goals first | exact h | exact fun hnil => h (List.append_eq_nil_iff.mp hnil).2

theorem hooked_ne_nil (hooks : List Hook) {cmd : Command} (h : cmd ≠ []) :
    (hooks.map Hook.hooker).foldl (fun cmd hooker => hooker.before cmd) cmd ≠ [] := by
  induction hooks generalizing cmd with
  | nil => exact h
  | cons hook hooks ih => exact ih (before_ne_nil hook h)

/-- A command with an argument has something to run, also behind the wait marker. -/
theorem exists_exec (e : Env) {cmd : Command} (hooks : List Hook)
    (h : 1 < cmd.length) :
    ∃ m c, newCommand e cmd (hooks.map Hook.hooker) = some m ∧ m.exec = some c := by
  cases cmd with
  | nil => exact absurd h (by decide)
  | cons first rest =>
    have hrest : rest ≠ [] := by
      intro hnil
      rw [hnil] at h
      exact Nat.lt_irrefl _ h
    have hcmd : (if decide (first = waitCommand) = true then rest else first :: rest) ≠ [] := by
      split
      · exact hrest
      · exact List.cons_ne_nil _ _
    simp only [newCommand]
    split
    · rename_i hnil
      exact absurd hnil (hooked_ne_nil hooks hcmd)
    · rename_i name args hcmd
      refine ⟨_, (hooks.map Hook.hooker).foldl (fun command hooker => hooker.after command)
        (exec e name args), rfl, ?_⟩
      split <;> rfl

/-! ## Its environment -/

section Env

variable {fold : GoString → GoString} {e : Env} {hooks : List Hook} {cmd : Command}
  {m : CmdManager} {c : ExecCmd}

theorem env_after (hook : Hook) (c : ExecCmd) :
    (hook.hooker.after c).env = appendEnv c.env hook.entries := by
  cases hook with
  | runAs w pid => rfl
  | env m order => rfl

theorem appendEnv_appendEnv (env : Option (List GoString)) (a b : List GoString) :
    appendEnv (appendEnv env a) b = appendEnv env (a ++ b) := by
  unfold appendEnv
  by_cases ha : a = []
  · rw [if_pos ha, ha, List.nil_append]
  · by_cases hb : b = []
    · rw [if_pos hb, hb, List.append_nil]
    · have hab : a ++ b ≠ [] := fun h => ha (List.append_eq_nil_iff.mp h).1
      rw [if_neg ha, if_neg hb, if_neg hab, Option.getD_some, List.append_assoc]

/-- The hookers append their entries one after the other. -/
theorem env_hooks (hooks : List Hook) (c : ExecCmd) :
    ((hooks.map Hook.hooker).foldl (fun command hooker => hooker.after command) c).env =
      appendEnv c.env (hooks.flatMap Hook.entries) := by
  induction hooks generalizing c with
  | nil => rfl
  | cons hook hooks ih =>
    rw [List.map_cons, List.foldl_cons, ih, env_after, appendEnv_appendEnv, List.flatMap_cons]

theorem env_newCommand (hm : newCommand e cmd (hooks.map Hook.hooker) = some m)
    (hc : m.exec = some c) :
    c.env = appendEnv (if 0 < e.extra.length then some (e.environ ++ e.extra) else none)
      (hooks.flatMap Hook.entries) := by
  cases cmd with
  | nil =>
    cases hm
    cases hc
  | cons first rest =>
    simp only [newCommand] at hm
    split at hm
    · cases hm
    · rename_i name args hcmd
      have hexec : m.exec = some ((hooks.map Hook.hooker).foldl
          (fun command hooker => hooker.after command) (exec e name args)) := by
        rw [← Option.some.inj hm]
        split <;> rfl
      rw [← Option.some.inj (hexec.symm.trans hc), env_hooks]
      rfl

/-- A child inherits the agent's environment if and only if `Env` is not empty, or no hooker has
an entry, or the entries set every variable of the agent themselves. -/
theorem inherits_iff (hm : newCommand e cmd (hooks.map Hook.hooker) = some m)
    (hc : m.exec = some c) :
    Inherits fold e hooks c ↔
      0 < e.extra.length ∨ hooks.flatMap Hook.entries = [] ∨
        ∀ k, Environ.lookup fold e.environ k ≠ none →
          Environ.lookup fold (hooks.flatMap Hook.entries) k ≠ none := by
  have henv := env_newCommand hm hc
  unfold Inherits childEnv
  simp only [Environ.lookup_dedupEnv]
  generalize hooks.flatMap Hook.entries = entries at henv ⊢
  by_cases hextra : 0 < e.extra.length
  · refine iff_of_true (fun k => ?_) (Or.inl hextra)
    rw [henv, if_pos hextra]
    unfold appendEnv
    split
    · rename_i hentries
      rw [Option.getD_some, hentries, List.append_nil]
    · rw [Option.getD_some, Option.getD_some]
  · have hnil : e.extra = [] := List.length_eq_zero_iff.mp (Nat.eq_zero_of_not_pos hextra)
    rw [henv, if_neg hextra, hnil, List.append_nil]
    unfold appendEnv
    by_cases hentries : entries = []
    · refine iff_of_true (fun k => ?_) (Or.inr (Or.inl hentries))
      rw [if_pos hentries, Option.getD_none, hentries, List.append_nil]
    · rw [if_neg hentries, Option.getD_some, Option.getD_none, List.nil_append,
        Environ.lookup_append_eq_iff]
      constructor
      · intro h
        exact Or.inr (Or.inr h)
      · intro h
        rcases h with h | h | h
        · exact absurd h (Nat.lt_irrefl 0)
        · exact absurd h hentries
        · exact h

end Env

/-- The variable that the fallbacks with the executable itself set. -/
def pidHook (pid : Int) : Hook :=
  .env (RangeMap.empty.set (str "pid") (itoa pid)) RangeOrder.listed

/-- With a global `Env`, the search path and the home directory are inherited. -/
theorem inherits_with_env :
    Inherits id ⟨[str "PATH=/bin", str "HOME=/root"], [str "pid=7"]⟩ [pidHook 7]
      ⟨str "/bin/yc", [str "-p", str "7"],
        some [str "PATH=/bin", str "HOME=/root", str "pid=7", str "pid=7"]⟩ := by
  have hm : newCommand ⟨[str "PATH=/bin", str "HOME=/root"], [str "pid=7"]⟩
      [str "/bin/yc", str "-p", str "7"] ([pidHook 7].map Hook.hooker) =
        some (.cmd ⟨⟨some ⟨str "/bin/yc", [str "-p", str "7"],
          some [str "PATH=/bin", str "HOME=/root", str "pid=7", str "pid=7"]⟩⟩⟩) := rfl
  exact (inherits_iff hm rfl).mpr (Or.inl (by decide))

/-- Without one, the hooker's variable is all that the child gets. -/
theorem not_inherits_pid :
    ¬ ∀ (fold : GoString → GoString) (e : Env) (hooks : List Hook) (cmd : Command)
      (m : CmdManager) (c : ExecCmd), newCommand e cmd (hooks.map Hook.hooker) = some m →
        m.exec = some c → Inherits fold e hooks c := by
  intro h
  have hinherits := h id ⟨[str "PATH=/bin"], []⟩ [pidHook 7] [str "/bin/yc", str "-p", str "7"] _ _
    rfl rfl
  exact absurd (hinherits (str "PATH")) (by decide)

end YcAgent.Executils
