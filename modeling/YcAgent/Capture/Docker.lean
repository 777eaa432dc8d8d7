import YcAgent.Base.CString
import YcAgent.Base.Loop
import YcAgent.Base.Scanner

/-!
# The container of a process

`GetDockerID` goes up from the process to its parents until there is none, and takes the first
line of docker's list whose process is one of them. The list has the first process of every
container, so a process is in the container whose process it is or comes from.
-/
namespace YcAgent.Capture.Docker

open Go

/-- What `ps.FindProcess` returns for a pid. Where it has no process, its error does not count. -/
inductive Found where
  | absent
  | failed (err : GoString)
  | process (ppid : ℤ)

/-- The variables of the loop of `getPIDChain`, and how often it has looked. -/
structure Walk where
  pids : List ℤ
  pid : ℤ
  looks : ℕ

/-- One turn of the loop; processes come and go between two looks. -/
def walkTurn (find : ℕ → ℤ → Found) (w : Walk) : Except GoString (List ℤ) ⊕ Walk :=
  match find w.looks w.pid with
  | .absent => .inl (.ok w.pids)
  | .failed err => .inl (.error err)
  | .process ppid => .inr ⟨w.pids ++ [w.pid], ppid, w.looks + 1⟩

def getPIDChain (fuel : ℕ) (find : ℕ → ℤ → Found) (pid : ℤ) : Option (Except GoString (List ℤ)) :=
  Loop.run (walkTurn find) fuel ⟨[], pid, 0⟩

/-- The search of a line for one of the pids. -/
def matchLine (pids : List ℤ) (line : GoString) : Option GoString :=
  pids.findSome? fun pid =>
    let start := itoa pid ++ str " "
    if hasPrefix line start then some (line.drop start.length) else none

/-- The scan of docker's list. -/
def scanInfo (pids : List ℤ) (output : GoString) : GoString :=
  ((scannedLines output).findSome? fun line => matchLine pids (trimSpace line)).getD []

/-- `GetDockerID`, with what `DockerInfo` printed or its error. -/
def getDockerID (fuel : ℕ) (find : ℕ → ℤ → Found) (info : Except GoString GoString) (pid : ℤ) :
    Option (GoString × Option GoString) :=
  (getPIDChain fuel find pid).map fun
    | .error err => ([], some err)
    | .ok pids =>
      match info with
      | .error err => ([], some err)
      | .ok output => (scanInfo pids output, none)

/-! ## The processes and the containers -/

/-- The processes with their parents; nobody is above himself. -/
structure ProcessTree where
  parent : ℤ → Option ℤ
  depth : ℤ → ℕ
  above : ∀ p q, parent p = some q → depth q < depth p

namespace ProcessTree

variable (t : ProcessTree)

/-- A table that stays as it is. -/
def find (_ : ℕ) (pid : ℤ) : Found :=
  match t.parent pid with
  | none => .absent
  | some ppid => .process ppid

/-- The process `p` is there and is `q` or comes from it. -/
inductive From (p : ℤ) : ℤ → Prop where
  | self {r : ℤ} (h : t.parent p = some r) : From p p
  | up {q r s : ℤ} (h : From p q) (hq : t.parent q = some r) (hr : t.parent r = some s) : From p r

end ProcessTree

/-- A container with its first process. -/
structure Container where
  pid : ℤ
  id : GoString
  graphic : ∀ b ∈ id, IsGraphic b
  nonempty : id ≠ []
  short : (itoa pid ++ space :: id).length < maxScanTokenSize

def Container.line (c : Container) : GoString := itoa c.pid ++ space :: c.id

/-- What `docker inspect` prints. -/
def listing (cs : List Container) : GoString := cs.flatMap fun c => c.line ++ [newline]

/-! ## The way up -/

section Climb

variable (t : ProcessTree)

/-- What the walk has seen: processes that `p` is or comes from, with all their parents but the
one that is next. -/
structure Climbs (p : ℤ) (w : Walk) : Prop where
  from_pids : ∀ q ∈ w.pids, t.From p q
  closed : ∀ q ∈ w.pids, ∀ r, t.parent q = some r → r ∈ w.pids ∨ r = w.pid
  start : p ∈ w.pids ∨ p = w.pid
  next : ∀ s, t.parent w.pid = some s → t.From p w.pid

theorem climbs_start (p : ℤ) : Climbs t p ⟨[], p, 0⟩ where
  from_pids := nofun
  closed := nofun
  start := Or.inr rfl
  next _ h := .self h

variable {t}

theorem Climbs.step {p : ℤ} {w : Walk} (h : Climbs t p w) {ppid : ℤ}
    (hparent : t.parent w.pid = some ppid) :
    Climbs t p ⟨w.pids ++ [w.pid], ppid, w.looks + 1⟩ where
  from_pids q hq := by
    rcases List.mem_append.mp hq with hq | hq
    · exact h.from_pids q hq
    · exact List.mem_singleton.mp hq ▸ h.next ppid hparent
  closed q hq r hr := by
    rcases List.mem_append.mp hq with hq | hq
    · refine Or.inl (List.mem_append.mpr ?_)
      exact (h.closed q hq r hr).imp id List.mem_singleton.mpr
    · rw [List.mem_singleton.mp hq, hparent] at hr
      exact Or.inr (Option.some.inj hr).symm
  start := Or.inl (List.mem_append.mpr (h.start.imp id List.mem_singleton.mpr))
  next _ hs := .up (h.next ppid hparent) hparent hs

/-- Where there is no process next, all of them have been seen. -/
theorem Climbs.mem_iff {p : ℤ} {w : Walk} (h : Climbs t p w) (hnone : t.parent w.pid = none)
    (q : ℤ) : q ∈ w.pids ↔ t.From p q := by
  constructor
  · exact h.from_pids q
  · intro hfrom
    induction hfrom with
    | self hr =>
      refine h.start.resolve_right fun heq => ?_
      rw [heq, hnone] at hr
      cases hr
    | up _ hq hr ih =>
      refine (h.closed _ ih _ hq).resolve_right fun heq => ?_
      rw [heq, hnone] at hr
      cases hr

theorem getPIDChain_find (t : ProcessTree) (p : ℤ) :
    ∃ pids, getPIDChain (t.depth p + 1) t.find p = some (.ok pids) ∧
      ∀ q, q ∈ pids ↔ t.From p q := by
  have hturn : ∀ w : Walk, Climbs t p w →
      (∃ r, walkTurn t.find w = .inl r ∧ ∃ pids, r = .ok pids ∧ ∀ q, q ∈ pids ↔ t.From p q) ∨
      ∃ w', walkTurn t.find w = .inr w' ∧ Climbs t p w' ∧ t.depth w'.pid < t.depth w.pid := by
    intro w hw
    cases hparent : t.parent w.pid with
    | none =>
      have hfind : t.find w.looks w.pid = .absent := by rw [ProcessTree.find, hparent]
      exact Or.inl ⟨.ok w.pids, by rw [walkTurn, hfind], w.pids, rfl, hw.mem_iff hparent⟩
    | some ppid =>
      have hfind : t.find w.looks w.pid = .process ppid := by rw [ProcessTree.find, hparent]
      exact Or.inr ⟨_, by rw [walkTurn, hfind], hw.step hparent, t.above _ _ hparent⟩
  obtain ⟨r, hr, pids, rfl, hmem⟩ :=
    Loop.run_of_variant (fun w : Walk => t.depth w.pid) hturn (climbs_start t p)
  exact ⟨pids, hr, hmem⟩

end Climb

/-! ## The list of docker -/

namespace Container

variable (c : Container)

theorem newline_not_mem_line : newline ∉ c.line := by
  intro h
  rcases List.mem_append.mp h with h | h
  · exact absurd (isGraphic_of_mem_itoa h) (by decide)
  · rcases List.mem_cons.mp h with h | h
    · exact absurd h (by decide)
    · exact absurd (c.graphic _ h) (by decide)

theorem isGraphic_of_getLast? {b : Byte} (hb : b ∈ c.line.getLast?) : IsGraphic b := by
  obtain ⟨a, id, hid⟩ := List.exists_cons_of_ne_nil c.nonempty
  have hline : c.line.getLast? = c.id.getLast? := by
    rw [line, List.getLast?_append, hid, List.getLast?_cons_cons, List.getLast?_cons]
    rfl
  rw [hline] at hb
  exact c.graphic b (List.mem_of_getLast? hb)

theorem dropCR_line : dropCR c.line = c.line :=
  if_neg fun h => absurd (c.isGraphic_of_getLast? h) (by decide)

theorem trimSpace_line : trimSpace c.line = c.line := by
  refine trimSpace_of_ends (fun b hb => ?_) fun b hb => c.isGraphic_of_getLast? hb
  obtain ⟨a, ds, hds⟩ := List.exists_cons_of_ne_nil (itoa_ne_nil c.pid)
  have ha : a ∈ itoa c.pid := hds ▸ List.mem_cons_self
  rw [line, hds] at hb
  exact Option.some.inj hb ▸ isGraphic_of_mem_itoa ha

theorem line_eq : c.line = (itoa c.pid ++ str " ") ++ c.id := by
  rw [List.append_assoc]
  rfl

/-- The pid is the whole of what stands before the first space. -/
theorem start_iff (pid : ℤ) : itoa pid ++ str " " <+: c.line ↔ pid = c.pid := by
  have hspace : ∀ n, space ∉ itoa n := not_mem_itoa (by decide) (by decide)
  constructor
  · rintro ⟨rest, hrest⟩
    rw [List.append_assoc] at hrest
    exact itoa_injective (CString.append_cons_unique (hspace pid) (hspace c.pid) hrest).1
  · rintro rfl
    exact ⟨c.id, c.line_eq.symm⟩

theorem matchLine_line (pids : List ℤ) :
    matchLine pids c.line = if c.pid ∈ pids then some c.id else none := by
  have hdrop : c.line.drop (itoa c.pid ++ str " ").length = c.id := by
    rw [line_eq, List.drop_left]
  unfold matchLine
  induction pids with
  | nil => rfl
  | cons pid pids ih =>
    rw [List.findSome?_cons]
    by_cases hpid : pid = c.pid
    · subst hpid
      have hpre : hasPrefix c.line (itoa c.pid ++ str " ") = true :=
        (hasPrefix_iff _ _).mpr ((c.start_iff c.pid).mpr rfl)
      simp only [hpre, hdrop, if_true, List.mem_cons_self]
    · have hpre : ¬ hasPrefix c.line (itoa pid ++ str " ") = true := fun h =>
        hpid ((c.start_iff pid).mp ((hasPrefix_iff _ _).mp h))
      have hmem : c.pid ∈ pid :: pids ↔ c.pid ∈ pids :=
        List.mem_cons.trans (or_iff_right (Ne.symm hpid))
      simp only [hpre, hmem]
      exact ih

end Container

/-- What the scan finds: the first container in the list with one of the pids. -/
theorem scanInfo_listing (pids : List ℤ) (cs : List Container) :
    scanInfo pids (listing cs) =
      ((cs.find? fun c => decide (c.pid ∈ pids)).map Container.id).getD [] := by
  have hlisting : listing cs = (cs.map Container.line).flatMap (· ++ [newline]) := by
    rw [listing, List.flatMap_map]
  have hscanned : scannedLines (listing cs) = cs.map Container.line := by
    rw [hlisting, scannedLines_flatMap (List.forall_mem_map.mpr fun c _ => c.newline_not_mem_line)
      (List.forall_mem_map.mpr fun c _ => c.short), List.map_map]
    exact List.map_congr_left fun c _ => c.dropCR_line
  rw [scanInfo, hscanned, List.findSome?_map]
  congr 1
  clear hlisting hscanned
  induction cs with
  | nil => rfl
  | cons c cs ih =>
    rw [List.findSome?_cons, List.find?_cons]
    have hc : matchLine pids (trimSpace c.line) = if c.pid ∈ pids then some c.id else none := by
      rw [c.trimSpace_line, c.matchLine_line]
    by_cases hpid : c.pid ∈ pids
    · simp [hc, hpid]
    · simp only [Function.comp, hc, hpid, if_false, decide_false]
      exact ih

open Classical in
/-- The container is the first one of the list, also where one container runs in another: how
near its first process is to the process does not count. -/
theorem getDockerID_listing (t : ProcessTree) (cs : List Container) (pid : ℤ) :
    getDockerID (t.depth pid + 1) t.find (.ok (listing cs)) pid =
      some (((cs.find? fun c => decide (t.From pid c.pid)).map Container.id).getD [], none) := by
  obtain ⟨pids, hchain, hmem⟩ := getPIDChain_find t pid
  have hfirst : (fun c : Container => decide (c.pid ∈ pids)) =
      fun c => decide (t.From pid c.pid) :=
    funext fun c => decide_eq_decide.mpr (hmem c.pid)
  rw [getDockerID, hchain, Option.map_some, ← hfirst, ← scanInfo_listing]

/-- Process 30 comes from 20, and that from 10; docker prints the outer container first. -/
def nestedTree : ProcessTree where
  parent p :=
    if p = 30 then some 20 else if p = 20 then some 10 else if p = 10 then some 1 else none
  depth p := if p = 30 then 3 else if p = 20 then 2 else if p = 10 then 1 else 0
  above := by
    intro p q hparent
    split_ifs at hparent <;> cases hparent <;> simp [*]

def outerContainer : Container := ⟨10, str "a1", by decide, by decide, by decide⟩

def innerContainer : Container := ⟨20, str "b2", by decide, by decide, by decide⟩

theorem nestedTree_from_outer : nestedTree.From 30 outerContainer.pid := by
  have hself : nestedTree.From 30 30 := .self (r := 20) (by decide)
  have hinner : nestedTree.From 30 20 := hself.up (r := 20) (by decide) (s := 10) (by decide)
  exact hinner.up (r := 10) (by decide) (s := 1) (by decide)

/-- The inner container is nearer and is not the one that is found. -/
theorem getDockerID_nested :
    getDockerID (nestedTree.depth 30 + 1) nestedTree.find
        (.ok (listing [outerContainer, innerContainer])) 30 = some (str "a1", none) := by
  classical
  rw [getDockerID_listing, List.find?_cons_of_pos (by simpa using nestedTree_from_outer)]
  rfl

end YcAgent.Capture.Docker
