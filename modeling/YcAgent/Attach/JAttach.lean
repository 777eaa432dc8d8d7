import YcAgent.Attach.ProcessInfo

/-!
# Under whose name the agent attaches

The agent starts its own executable with `-p` and a capture mode, where it may run it as the user
of the target by `sudo`, which is not part of it: whether that runs the command, with which ids
and in which environment are parameters here. Before `main` a constructor reads the number of the
target from the variable `pid` and takes on the effective group and user of the target; the
attachment itself is refused where that failed. The target is entered in its namespaces before,
which nothing depends on here.
-/
namespace YcAgent.Attach.JAttach

open Go CString Executils

/-- The real, effective and saved ids of a process. -/
structure Credentials where
  ruid : UInt32
  euid : UInt32
  suid : UInt32
  rgid : UInt32
  egid : UInt32
  sgid : UInt32
  deriving DecidableEq

namespace Credentials

variable (c : Credentials)

/-- `setegid`: without privileges only to an id that the process has. -/
def setegid (gid : UInt32) : Option Credentials :=
  if c.euid = 0 ∨ gid = c.rgid ∨ gid = c.egid ∨ gid = c.sgid then some { c with egid := gid }
  else none

def seteuid (uid : UInt32) : Option Credentials :=
  if c.euid = 0 ∨ uid = c.ruid ∨ uid = c.euid ∨ uid = c.suid then some { c with euid := uid }
  else none

end Credentials

/-- The static variables of `jattach.c`, and the credentials of the process. -/
structure Statics where
  nspid : ℤ
  code : ℤ
  creds : Credentials

/-- What `jattach1` finds about a process. -/
structure Target where
  status : Option GoString
  names : NamespaceWorld

/-- The change of the group, and then that of the user; an id that is right is left alone. -/
def switch (c : Credentials) (info : ProcessInfo) : Credentials × Bool :=
  match if c.egid = info.gid then some c else c.setegid info.gid with
  | none => (c, false)
  | some c' =>
    match if c.euid = info.uid then some c' else c'.seteuid info.uid with
    | none => (c', false)
    | some c'' => (c'', true)

/-- `none` is a number read through a null pointer. -/
def jattach1 (target : ℤ → Target) (pid : ℤ) (s : Statics) : Option Statics :=
  let t := target pid
  (getProcessInfo t.status t.names pid ⟨s.creds.euid, s.creds.egid, s.nspid⟩).map fun
    | none => { s with code := 1 }
    | some info =>
      let (creds, ok) := switch s.creds info
      ⟨info.nspid, if ok then 0 else 1, creds⟩

/-- `getenv_int`, of the value of a variable. -/
def getenvInt (env : List GoString) (name : GoString) : ℤ :=
  match Environ.lookup id env name with
  | none => -1
  | some kv =>
    match kv.drop (name.length + 1) with
    | [] => -1
    | val => CString.atoi val

/-- The constructor, before anything else. -/
def constructor (target : ℤ → Target) (env : List GoString) (creds : Credentials) :
    Option Statics :=
  let pid := getenvInt env (str "pid")
  let s : Statics := ⟨0, 0, creds⟩
  if pid ≤ 0 then some s else jattach1 target pid s

/-- How a capture goes on: the target that is attached to, by its number in its namespace, and
the credentials that it is done with. -/
inductive Attachment where
  /-- the child was not run -/
  | notRun
  | refused (code : ℤ)
  | openJ9 (pid nspid : ℤ) (creds : Credentials)
  | hotSpot (pid nspid : ℤ) (creds : Credentials)

def jattach2 (isOpenJ9 : ℤ → Bool) (s : Statics) (pid : ℤ) : Attachment :=
  if s.code ≠ 0 then .refused s.code
  else if isOpenJ9 s.nspid then .openJ9 pid s.nspid s.creds
  else .hotSpot pid s.nspid s.creds

/-! ## The child of the agent -/

/-- What `sudo` does, by its arguments. -/
structure Sudo where
  /-- the ids that the command is run with, if it is run -/
  run : List GoString → Option Credentials
  /-- the environment that it is run in, for the one that `sudo` was started in -/
  env : List GoString → List GoString → List GoString

/-- With `-E` the variable stays. -/
def Sudo.Preserves (s : Sudo) (name : GoString) : Prop :=
  ∀ args env, args.head? = some (str "-E") →
    Environ.lookup id (s.env args env) name = Environ.lookup id env name

/-- The machine: the ids of the agent, its `sudo`, and what can be seen of the processes. -/
structure Host where
  agent : Credentials
  hasSudo : Bool
  runAs : Sudo
  env : Executils.Env
  executable : GoString
  absolute : executable.head? = some 47
  target : ℤ → Target
  isOpenJ9 : ℤ → Bool

namespace Host

variable (h : Host)

def sudoWorld : SudoWorld where
  status pid := (h.target pid).status
  getuid := h.agent.ruid.toNat
  hasSudo := h.hasSudo

/-- The ids and the environment that a command of the agent leads to. -/
def child (c : ExecCmd) : Option (Credentials × List GoString) :=
  let env := childEnv id h.env c
  if c.name = str "sudo" then (h.runAs.run c.args).map fun creds => (creds, h.runAs.env c.args env)
  else some (h.agent, env)

def hooks (pid : ℤ) : List Hook := [pidHook pid, .runAs h.sudoWorld pid]

def command (pid : ℤ) (mode : GoString) : Executils.Command :=
  [h.executable, str "-p", itoa pid, mode]

/-- A capture with a child, which attaches to the process of its `-p`. -/
def capture (pid : ℤ) (mode : GoString) : Option Attachment := do
  let m ← newCommand h.env (h.command pid mode) ((h.hooks pid).map Hook.hooker)
  let c ← m.exec
  match h.child c with
  | none => return .notRun
  | some (creds, env) =>
    let s ← constructor h.target env creds
    return jattach2 h.isOpenJ9 s pid

end Host

/-! ## Its environment -/

/-- Whatever the agent's environment is, the variable has the number that the child is started
for. -/
theorem lookup_childEnv {e : Executils.Env} {cmd : Executils.Command} {m : CmdManager}
    {c : ExecCmd} {pid : ℤ} {w : SudoWorld}
    (hm : newCommand e cmd (([pidHook pid, .runAs w pid] : List Hook).map Hook.hooker) = some m)
    (hc : m.exec = some c) :
    Environ.lookup id (childEnv id e c) (str "pid") = some (str "pid=" ++ itoa pid) := by
  have hentries : ([pidHook pid, .runAs w pid] : List Hook).flatMap Hook.entries =
      [str "pid=" ++ itoa pid] := rfl
  have henv := env_newCommand hm hc
  rw [hentries] at henv
  rw [childEnv, Environ.lookup_dedupEnv, henv, appendEnv, if_neg (List.cons_ne_nil _ _),
    Option.getD_some, Environ.lookup_append]
  have hname : Environ.name (str "pid=" ++ itoa pid) = some (str "pid") := by
    have hcons : str "pid=" ++ itoa pid = 112 :: ([105, 100] ++ Environ.equals :: itoa pid) := rfl
    rw [hcons, Environ.name, if_pos (by simp)]
    rfl
  have hnames : Environ.Names id (str "pid") (str "pid=" ++ itoa pid) := by
    rw [Environ.Names, hname]
    rfl
  rw [Environ.lookup_cons, if_pos hnames]
  rfl

theorem getenvInt_of_lookup {env : List GoString} {pid : ℤ} (hpid : InInt32 pid)
    (h : Environ.lookup id env (str "pid") = some (str "pid=" ++ itoa pid)) :
    getenvInt env (str "pid") = pid := by
  rw [getenvInt, h]
  have hdrop : (str "pid=" ++ itoa pid).drop ((str "pid").length + 1) = itoa pid := rfl
  dsimp only
  rw [hdrop]
  split
  · rename_i hnil
    exact absurd hnil (itoa_ne_nil pid)
  · rw [← List.append_nil (itoa pid)]
    exact atoi_itoa hpid nofun

/-! ## The credentials -/

def Credentials.HasGroup (c : Credentials) (gid : UInt32) : Prop :=
  gid = c.rgid ∨ gid = c.egid ∨ gid = c.sgid

def Credentials.HasUser (c : Credentials) (uid : UInt32) : Prop :=
  uid = c.ruid ∨ uid = c.euid ∨ uid = c.suid

/-- The ids can be taken on. -/
def May (c : Credentials) (uid gid : UInt32) : Prop :=
  c.euid = 0 ∨ c.HasGroup gid ∧ c.HasUser uid

instance (c : Credentials) (gid : UInt32) : Decidable (c.HasGroup gid) :=
  inferInstanceAs (Decidable (_ ∨ _))

instance (c : Credentials) (uid : UInt32) : Decidable (c.HasUser uid) :=
  inferInstanceAs (Decidable (_ ∨ _))

instance (c : Credentials) (uid gid : UInt32) : Decidable (May c uid gid) :=
  inferInstanceAs (Decidable (_ ∨ _))

theorem group_eq (c : Credentials) (gid : UInt32) :
    (if c.egid = gid then some c else c.setegid gid) =
      if c.euid = 0 ∨ c.HasGroup gid then some { c with egid := gid } else none := by
  split
  · rename_i h
    subst h
    exact (if_pos (Or.inr (Or.inr (Or.inl rfl)))).symm
  · rfl

theorem user_eq (c : Credentials) (uid : UInt32) :
    (if c.euid = uid then some c else c.seteuid uid) =
      if c.euid = 0 ∨ c.HasUser uid then some { c with euid := uid } else none := by
  split
  · rename_i h
    subst h
    exact (if_pos (Or.inr (Or.inr (Or.inl rfl)))).symm
  · rfl

/-- The group is changed while the user still may. -/
theorem switch_spec (c : Credentials) (info : ProcessInfo) :
    if May c info.uid info.gid then
      switch c info = ({ c with euid := info.uid, egid := info.gid }, true)
    else (switch c info).2 = false := by
  have hgroup := group_eq c info.gid
  have huser : (if c.euid = info.uid then some { c with egid := info.gid }
      else Credentials.seteuid { c with egid := info.gid } info.uid) =
      if c.euid = 0 ∨ c.HasUser info.uid then
        some { c with euid := info.uid, egid := info.gid } else none :=
    user_eq { c with egid := info.gid } info.uid
  have hmay : May c info.uid info.gid ↔
      (c.euid = 0 ∨ c.HasGroup info.gid) ∧ (c.euid = 0 ∨ c.HasUser info.uid) := or_and_left
  unfold switch
  rw [hgroup]
  by_cases hg : c.euid = 0 ∨ c.HasGroup info.gid
  · rw [if_pos hg]
    dsimp only
    by_cases hu : c.euid = 0 ∨ c.HasUser info.uid
    · rw [if_pos (hmay.mpr ⟨hg, hu⟩), huser, if_pos hu]
    · rw [if_neg fun h => hu (hmay.mp h).2, huser, if_neg hu]
  · rw [if_neg hg, if_neg fun h => hg (hmay.mp h).1]

/-- What the constructor leaves of a process that is there. -/
theorem jattach1_spec {target : ℤ → Target} {pid n : ℤ} {st : StatusFile} {k : ContainerProc}
    (ht : target pid = ⟨some st.text, k.world⟩) (hn : st.Numbers k pid n) (c : Credentials) :
    ∃ s, jattach1 target pid ⟨0, 0, c⟩ = some s ∧
      if May c st.uid.effective st.gid.effective then
        s = ⟨n, 0, { c with euid := st.uid.effective, egid := st.gid.effective }⟩
      else s.code = 1 := by
  have hinfo := getProcessInfo_exact st k hn ⟨c.euid, c.egid, 0⟩
  have hswitch := switch_spec c ⟨st.uid.effective, st.gid.effective, n⟩
  refine ⟨_, by rw [jattach1, ht]; exact congrArg _ hinfo, ?_⟩
  dsimp only at hswitch ⊢
  split at hswitch
  · rename_i hmay
    rw [if_pos hmay, hswitch, if_pos rfl]
  · rename_i hmay
    rw [if_neg hmay, hswitch, if_neg Bool.false_ne_true]

/-! ## The user that `sudo` is asked for -/

/-- No line in front of that of the user is too long for the scanner. -/
def Scanned (st : StatusFile) : Prop :=
  ∀ l ∈ st.lines.takeWhile (fun l => !hasPrefix l (str "Uid:")), Fits l

instance (st : StatusFile) : Decidable (Scanned st) :=
  inferInstanceAs (Decidable (∀ l ∈ _, Fits l))

theorem length_number_le (n : UInt32) : (number n).length ≤ 10 := by
  have hlt := n.toNat_lt
  exact length_decimal_le (by decide) (by omega)

theorem fits_idLine {name : GoString} (hname : name.length = 4) (i : Ids) :
    Fits (idLine name i) := by
  have h := length_number_le
  have hreal := h i.real
  have heffective := h i.effective
  have hsaved := h i.saved
  have hfs := h i.fs
  show (idLine name i).length < 65536
  simp only [idLine, List.length_append, List.length_cons]
  omega

theorem dropCR_idLine (i : Ids) : dropCR (idLine (str "Uid:") i) = idLine (str "Uid:") i := by
  have hnumber : ∀ n : UInt32, carriageReturn ∉ number n := fun n h =>
    absurd (isDigit_of_mem_decimal _ h) (by decide)
  have hnot : carriageReturn ∉ idLine (str "Uid:") i := by
    have htab : carriageReturn ≠ tab := by decide
    have hname : carriageReturn ∉ str "Uid:" := by decide
    simp [idLine, hnumber, htab, hname]
  exact if_neg fun h => hnot (List.mem_of_getLast? h)

/-- The file around the line of the user. -/
theorem exists_around (st : StatusFile) : ∃ behind, st.lines =
    st.lines.takeWhile (fun l => !hasPrefix l (str "Uid:")) ++
      idLine (str "Uid:") st.uid :: behind := by
  have hsplit := List.takeWhile_append_dropWhile (p := fun l => !hasPrefix l (str "Uid:"))
    (l := st.lines)
  cases hdrop : st.lines.dropWhile (fun l => !hasPrefix l (str "Uid:")) with
  | nil =>
    have hall := List.dropWhile_eq_nil_iff.mp hdrop _ st.hasUid.mem
    rw [(hasPrefix_iff _ _).mpr (StatusFile.name_prefix_idLine _ _)] at hall
    cases hall
  | cons l behind =>
    have hhead := List.head?_dropWhile_not (fun l => !hasPrefix l (str "Uid:")) st.lines
    rw [hdrop] at hhead hsplit
    have hpre : hasPrefix l (str "Uid:") = true := by simpa using hhead
    have hmem : l ∈ st.lines := by
      rw [← hsplit]
      exact List.mem_append_right _ List.mem_cons_self
    obtain rfl := st.hasUid.only l hmem ((hasPrefix_iff _ _).mp hpre)
    exact ⟨behind, hsplit.symm⟩

/-- The scan finds the line of the user if it comes so far. -/
theorem find?_scannedLines (st : StatusFile) :
    (scannedLines st.text).find? (fun line => hasPrefix line (str "Uid:")) =
      if Scanned st then some (idLine (str "Uid:") st.uid) else none := by
  obtain ⟨behind, hlines⟩ := exists_around st
  have hnone : ∀ ls : List GoString,
      ls <+: st.lines.takeWhile (fun l => !hasPrefix l (str "Uid:")) →
      (ls.map dropCR).find? (fun line => hasPrefix line (str "Uid:")) = none := by
    intro ls hls
    rw [List.find?_eq_none, List.forall_mem_map]
    intro l hl hpre
    have hnot := List.mem_takeWhile_imp (hls.subset hl)
    have hname : hasPrefix l (str "Uid:") = true :=
      (hasPrefix_iff _ _).mpr (((hasPrefix_iff _ _).mp hpre).trans (dropCR_isPrefix l))
    rw [hname] at hnot
    cases hnot
  rw [scannedLines, StatusFile.text, rawLines_flatMap fun l hl => (st.clean l hl).1]
  split
  · rename_i hscanned
    have hfits : Fits (idLine (str "Uid:") st.uid) := fits_idLine rfl st.uid
    have hname : hasPrefix (idLine (str "Uid:") st.uid) (str "Uid:") = true :=
      (hasPrefix_iff _ _).mpr (StatusFile.name_prefix_idLine _ _)
    have hbefore := hnone _ List.prefix_rfl
    have hhead : (idLine (str "Uid:") st.uid :: behind).takeWhile (fun l => decide (Fits l)) =
        idLine (str "Uid:") st.uid :: behind.takeWhile (fun l => decide (Fits l)) :=
      List.takeWhile_cons_of_pos (decide_eq_true hfits)
    rw [hlines, List.takeWhile_append_of_pos fun l hl => decide_eq_true (hscanned l hl),
      hhead, List.map_append, List.map_cons,
      dropCR_idLine, List.find?_append, hbefore, Option.none_or, List.find?_cons, hname]
  · rename_i hscanned
    apply hnone
    have hshort : ¬ ∀ l ∈ st.lines.takeWhile (fun l => !hasPrefix l (str "Uid:")),
        decide (Fits l) = true := fun h => hscanned fun l hl => of_decide_eq_true (h l hl)
    have hlen : ((st.lines.takeWhile fun l => !hasPrefix l (str "Uid:")).takeWhile
        fun l => decide (Fits l)).length ≠
          (st.lines.takeWhile fun l => !hasPrefix l (str "Uid:")).length := by
      intro heq
      apply hshort
      rw [← List.takeWhile_eq_self_iff]
      exact (List.takeWhile_prefix _).eq_of_length heq
    conv_lhs => rw [hlines, List.takeWhile_append, if_neg hlen]
    exact List.takeWhile_prefix _

/-- `GetUid` reads the real user where the scan comes so far, and nothing where it does not. -/
theorem getUid_text (st : StatusFile) :
    getUid (some st.text) = some (if Scanned st then number st.uid.real else []) := by
  have hcols : (split (idLine (str "Uid:") st.uid) 9)[1]? = some (number st.uid.real) := by
    have hline : idLine (str "Uid:") st.uid = str "Uid:" ++ tab :: (number st.uid.real ++ tab ::
        (number st.uid.effective ++ tab :: number st.uid.saved ++ tab :: number st.uid.fs)) := by
      simp [idLine]
    have hname : tab ∉ str "Uid:" := by decide
    have hreal : tab ∉ number st.uid.real := not_mem_number (by simp) _
    rw [hline, split]
    show (List.splitOn tab _)[1]? = _
    rw [List.splitOn_append_cons_self_of_not_mem hname,
      List.splitOn_append_cons_self_of_not_mem hreal]
    rfl
  rw [getUid, Option.map_some, find?_scannedLines]
  by_cases hscanned : Scanned st
  · rw [if_pos hscanned, if_pos hscanned]
    dsimp only
    rw [hcols]
    exact congrArg some (trimSpace_of_graphic fun b hb =>
      isGraphic_of_isDigit (isDigit_of_mem_decimal b hb))
  · rw [if_neg hscanned, if_neg hscanned]

/-- The target is seen to have another real user than the agent, and `sudo` is there. -/
def Host.Sudoes (h : Host) (st : StatusFile) : Prop :=
  h.hasSudo = true ∧ st.uid.real ≠ h.agent.ruid ∧ Scanned st

instance (h : Host) (st : StatusFile) : Decidable (h.Sudoes st) :=
  inferInstanceAs (Decidable (_ ∧ _ ∧ _))

/-- The arguments of the `sudo` that is put in front of the command. -/
def sudoArgs (st : StatusFile) : List GoString :=
  [str "-E", str "-u", str "#" ++ number st.uid.real]

theorem atoi_number (n : UInt32) : Go.atoi (number n) = some (n.toNat : ℤ) := by
  have hvalue := digitsValue_decimal n.toNat
  have hlt := n.toNat_lt
  rw [number, Go.atoi_of_digits (decimal_ne_nil _) (fun b hb => isDigit_of_mem_decimal b hb),
    hvalue, if_pos ⟨by omega, by omega⟩]

theorem before_sudoHooker (h : Host) {pid : ℤ} {st : StatusFile} {names : NamespaceWorld}
    (ht : h.target pid = ⟨some st.text, names⟩) (cmd : Executils.Command) :
    (sudoHooker h.sudoWorld pid).before cmd =
      if h.Sudoes st then str "sudo" :: (sudoArgs st ++ cmd) else cmd := by
  have huid : getUid (h.sudoWorld.status pid) =
      some (if Scanned st then number st.uid.real else []) := by
    have hstatus : h.sudoWorld.status pid = (h.target pid).status := rfl
    rw [hstatus, ht]
    exact getUid_text st
  rw [sudoHooker]
  dsimp only
  rw [huid]
  dsimp only
  by_cases hscanned : Scanned st
  · have hlen : ¬ (number st.uid.real).length < 1 := by
      have hpos := List.length_pos_of_ne_nil (decimal_ne_nil st.uid.real.toNat)
      unfold number
      omega
    rw [if_pos hscanned, if_neg hlen, atoi_number]
    dsimp only
    by_cases hsame : st.uid.real = h.agent.ruid
    · have hid : (st.uid.real.toNat : ℤ) = h.sudoWorld.getuid := by rw [hsame]; rfl
      rw [if_pos hid, if_neg fun hs => hs.2.1 hsame]
    · have hid : (st.uid.real.toNat : ℤ) ≠ h.sudoWorld.getuid := fun heq =>
        hsame (UInt32.toNat_inj.mp (Int.ofNat.inj heq))
      rw [if_neg hid]
      by_cases hsudo : h.sudoWorld.hasSudo = true
      · rw [if_pos hsudo, if_pos ⟨hsudo, hsame, hscanned⟩]
        rfl
      · rw [if_neg hsudo, if_neg fun hs => hsudo hs.1]
  · have hempty : ([] : GoString).length < 1 := by decide
    have hnot : ¬ h.Sudoes st := fun hs => hscanned hs.2.2
    rw [if_neg hscanned, if_neg hnot, if_pos hempty]

theorem newCommand_of_before {e : Executils.Env} {first name : GoString}
    {rest args : List GoString}
    {hookers : List Hooker} (hwait : first ≠ waitCommand)
    (hbefore : hookers.foldl (fun cmd hooker => hooker.before cmd) (first :: rest) =
      name :: args) :
    newCommand e (first :: rest) hookers = some (.cmd ⟨⟨some
      (hookers.foldl (fun command hooker => hooker.after command) (exec e name args))⟩⟩) := by
  simp only [newCommand, hwait, decide_false, Bool.false_eq_true, if_false, hbefore]

/-- What is run: the command that the hookers leave. -/
theorem exists_command (h : Host) (pid : ℤ) (mode : GoString) : ∃ m c,
    newCommand h.env (h.command pid mode) ((h.hooks pid).map Hook.hooker) = some m ∧
    m.exec = some c ∧
    c.name :: c.args = (sudoHooker h.sudoWorld pid).before (h.command pid mode) := by
  have hwait : h.executable ≠ waitCommand := by
    intro heq
    have habs := h.absolute
    rw [heq] at habs
    exact absurd habs (by decide)
  have hne := hooked_ne_nil (h.hooks pid) (List.cons_ne_nil _ _ : h.command pid mode ≠ [])
  obtain ⟨name, args, hcmd⟩ := List.exists_cons_of_ne_nil hne
  have hcmd' : (sudoHooker h.sudoWorld pid).before (h.command pid mode) = name :: args := hcmd
  exact ⟨_, _, newCommand_of_before hwait hcmd, rfl, hcmd'.symm⟩

/-- The ids of the child of a capture, if it is run. -/
def Host.childCreds (h : Host) (st : StatusFile) (pid : ℤ) (mode : GoString) :
    Option Credentials :=
  if h.Sudoes st then h.runAs.run (sudoArgs st ++ h.command pid mode) else some h.agent

/-- The child has the ids that it is run with, and the number that it is started for. -/
theorem child_spec (h : Host) (hpid : h.runAs.Preserves (str "pid")) {pid : ℤ}
    (hint : InInt32 pid) {st : StatusFile} {names : NamespaceWorld}
    (ht : h.target pid = ⟨some st.text, names⟩) {mode : GoString} {m : CmdManager} {c : ExecCmd}
    (hm : newCommand h.env (h.command pid mode) ((h.hooks pid).map Hook.hooker) = some m)
    (hc : m.exec = some c)
    (hcmd : c.name :: c.args = (sudoHooker h.sudoWorld pid).before (h.command pid mode)) :
    (h.child c).map Prod.fst = h.childCreds st pid mode ∧
      ∀ creds env, h.child c = some (creds, env) → getenvInt env (str "pid") = pid := by
  have hlookup := lookup_childEnv hm hc
  rw [before_sudoHooker h ht] at hcmd
  unfold Host.child Host.childCreds
  split at hcmd
  · rename_i hsudoes
    obtain ⟨hname, hargs⟩ := List.cons.inj hcmd
    rw [if_pos hname, if_pos hsudoes, hargs, Option.map_map]
    refine ⟨Option.map_id', fun creds env henv => ?_⟩
    obtain ⟨creds', -, heq⟩ := Option.map_eq_some_iff.mp henv
    obtain ⟨-, rfl⟩ := Prod.mk.inj heq
    apply getenvInt_of_lookup hint
    rw [hpid _ _ rfl, hlookup]
  · rename_i hsudoes
    obtain ⟨hname, -⟩ := List.cons.inj hcmd
    have hother : c.name ≠ str "sudo" := by
      intro heq
      have habs := h.absolute
      rw [← hname, heq] at habs
      exact absurd habs (by decide)
    rw [if_neg hother, if_neg hsudoes]
    refine ⟨rfl, fun creds env henv => ?_⟩
    obtain ⟨-, rfl⟩ := Prod.mk.inj (Option.some.inj henv)
    exact getenvInt_of_lookup hint hlookup

/-- The child of a capture attaches to its process under the number that the process has for
itself, and under its effective group and user, or is refused: exactly where the child may not
take these on. -/
theorem capture_as_target (h : Host) (hsudo : h.runAs.Preserves (str "pid")) {pid n : ℤ}
    {st : StatusFile} {k : ContainerProc} (hpid : 0 < pid) (hint : InInt32 pid)
    (ht : h.target pid = ⟨some st.text, k.world⟩) (hn : st.Numbers k pid n) (mode : GoString) :
    h.capture pid mode = some (
      match h.childCreds st pid mode with
      | none => .notRun
      | some creds =>
        if May creds st.uid.effective st.gid.effective then
          let creds := { creds with euid := st.uid.effective, egid := st.gid.effective }
          if h.isOpenJ9 n then .openJ9 pid n creds else .hotSpot pid n creds
        else .refused 1) := by
  obtain ⟨m, c, hm, hc, hcmd⟩ := exists_command h pid mode
  obtain ⟨hcreds, henv⟩ := child_spec h hsudo hint ht hm hc hcmd
  have hcapture : h.capture pid mode =
      match h.child c with
      | none => some .notRun
      | some (creds, env) => (constructor h.target env creds).bind fun s =>
        some (jattach2 h.isOpenJ9 s pid) := by
    unfold Host.capture
    rw [hm]
    show (m.exec.bind _) = _
    rw [hc, Option.bind_some]
    rfl
  rw [hcapture, ← hcreds]
  cases hchild : h.child c with
  | none => rfl
  | some child =>
    obtain ⟨creds, env⟩ := child
    obtain ⟨s, hs, hspec⟩ := jattach1_spec ht hn creds
    have hconstructor : constructor h.target env creds = some s := by
      rw [constructor, henv creds env hchild, if_neg (by omega), hs]
    simp only [hconstructor, Option.bind_some, Option.map_some]
    split at hspec
    · rename_i hmay
      rw [if_pos hmay, hspec]
      rfl
    · rename_i hmay
      rw [if_neg hmay, jattach2, hspec]
      rfl

/-- A JVM of the user 1000 in a container. -/
def javaUid : Ids := ⟨1000, 1000, 1000, 1000⟩

def javaPids : NsPids := ⟨[77], 7, by decide⟩

def javaLines : List GoString :=
  [str "Name:\tjava", idLine (str "Uid:") javaUid, idLine (str "Gid:") javaUid, javaPids.line]

def javaStatus : StatusFile where
  lines := javaLines
  uid := javaUid
  gid := javaUid
  nspids := some javaPids
  clean := by decide
  hasUid := ⟨by decide, by decide⟩
  hasGid := ⟨by decide, by decide⟩
  hasPids := ⟨by decide, by decide⟩

def noContainer : ContainerProc := ⟨true, [], nofun, nofun⟩

/-- `sudo` for root: it runs all there is as the user that is asked for, and leaves its name. -/
def rootSudo : Sudo where
  run args := ((Go.atoi ((args.getD 2 []).drop 1)).map toId).map fun uid =>
    ⟨uid, uid, uid, uid, uid, uid⟩
  env _ env := env ++ [str "SUDO_USER=root"]

theorem rootSudo_preserves : rootSudo.Preserves (str "pid") := by
  intro args env _
  rw [rootSudo, Environ.lookup_append]
  have hnone : Environ.lookup id [str "SUDO_USER=root"] (str "pid") = none := by decide
  rw [hnone, Option.none_or]

/-- The agent of root, which runs the child as that user. -/
def rootHost : Host where
  agent := ⟨0, 0, 0, 0, 0, 0⟩
  hasSudo := true
  runAs := rootSudo
  env := ⟨[str "PATH=/bin"], []⟩
  executable := str "/opt/yc"
  absolute := rfl
  target _ := ⟨some javaStatus.text, noContainer.world⟩
  isOpenJ9 _ := false

theorem capture_as_target_java :
    rootHost.childCreds javaStatus 77 (str "-tdCaptureMode") =
      some ⟨1000, 1000, 1000, 1000, 1000, 1000⟩ ∧
    rootHost.capture 77 (str "-tdCaptureMode") = some (
      match rootHost.childCreds javaStatus 77 (str "-tdCaptureMode") with
      | none => .notRun
      | some creds =>
        if May creds javaStatus.uid.effective javaStatus.gid.effective then
          let creds := { creds with
            euid := javaStatus.uid.effective, egid := javaStatus.gid.effective }
          if rootHost.isOpenJ9 7 then .openJ9 77 7 creds else .hotSpot 77 7 creds
        else .refused 1) :=
  ⟨by decide, @capture_as_target rootHost rootSudo_preserves 77 7 javaStatus noContainer
    (by decide) (by decide) rfl rfl _⟩

end YcAgent.Attach.JAttach
