import YcAgent.Base.Dedup
import YcAgent.Config.Options

/-!
# Capturing a list of processes

`ProcessPids` captures every pid once. What it does is kept as the list of its
effects: a run of the configured capture command, or a call of `FullCapture`.
-/
namespace YcAgent.Ondemand

open Go

/-- The arguments of `FullCapture`. -/
structure FullCapture where
  pid : Int
  appName : GoString
  hd : Bool
  tags : GoString
  tsParam : GoString
  deriving DecidableEq

inductive Effect where
  | runCaptureCmd (pid : Int) (cmd : GoString)
  | fullCapture (call : FullCapture)
  deriving DecidableEq

def Effect.pid : Effect → Int
  | .runCaptureCmd pid _ => pid
  | .fullCapture call => call.pid

def removeDuplicate {T : Type} [DecidableEq T] (sliceList : List T) : List T :=
  (sliceList.foldl (fun (s : GoMap T Bool × List T) item =>
    if item ∈ s.1 then s else (s.1.insert item true, s.2 ++ [item])) (∅, [])).2

theorem removeDuplicate_eq {T : Type} [DecidableEq T] (sliceList : List T) :
    removeDuplicate sliceList = sliceList.eraseDups := by
  suffices h : ∃ keys : GoMap T Bool, (∀ x, x ∈ keys ↔ x ∈ sliceList) ∧
      sliceList.foldl (fun (s : GoMap T Bool × List T) item =>
        if item ∈ s.1 then s else (s.1.insert item true, s.2 ++ [item])) (∅, []) =
      (keys, sliceList.eraseDups) by
    obtain ⟨keys, -, hfold⟩ := h
    rw [removeDuplicate, hfold]
  induction sliceList using List.reverseRecOn with
  | nil => exact ⟨∅, fun x => by simp [Finmap.notMem_empty], rfl⟩
  | append_singleton xs x ih =>
    obtain ⟨keys, hkeys, hfold⟩ := ih
    rw [List.foldl_append, hfold, Dedup.eraseDups_snoc]
    by_cases hx : x ∈ xs
    · refine ⟨keys, fun y => ?_, ?_⟩
      · rw [hkeys, List.mem_append, List.mem_singleton]
        exact ⟨Or.inl, fun h => h.elim id fun he => he ▸ hx⟩
      · simp [hkeys, hx]
    · refine ⟨keys.insert x true, fun y => ?_, ?_⟩
      · rw [Finmap.mem_insert, hkeys, List.mem_append, List.mem_singleton, or_comm]
      · simp [hkeys, hx]

def processName (o : Options) (pid2Name : GoMap Int GoString) (pid : Int) : GoString :=
  match pid2Name.lookup pid with
  | some n => n
  | none => o .appName

/-- The timestamp of the `i`-th pid; the pids past the end get the empty one. -/
def timestampAt (timestamps : List GoString) (i : Nat) : GoString :=
  if (i : Int) > timestamps.length - 1 then [] else timestamps.getD i []

section ProcessPids

variable (o : Options) (url : FullCapture → GoString) (pid2Name : GoMap Int GoString)
  (hd : Bool) (tags : GoString) (timestamps : List GoString)

def fullCaptureOf (pid : Int) (i : Nat) : FullCapture :=
  ⟨pid, processName o pid2Name pid, hd, tags, timestampAt timestamps i⟩

/-- One round of the loop; `url` is what a `FullCapture` call returns. A failed capture
command is only logged. -/
def processPid (s : List Effect × List GoString) (p : Int × Nat) :
    List Effect × List GoString :=
  if 0 < (o .captureCmd : GoString).length then
    (s.1 ++ [.runCaptureCmd p.1 (o .captureCmd)], s.2)
  else
    let call := fullCaptureOf o pid2Name hd tags timestamps p.1 p.2
    let u := url call
    (s.1 ++ [.fullCapture call], if 0 < u.length then s.2 ++ [u] else s.2)

def processPids (pids : List Int) : List Effect × List GoString :=
  if pids.length ≤ 0 then ([], [])
  else
    (removeDuplicate pids).zipIdx.foldl (processPid o url pid2Name hd tags timestamps) ([], [])

end ProcessPids

theorem timestampAt_eq {timestamps : List GoString} {i : Nat} {t : GoString}
    (h : timestamps[i]? = some t) : timestampAt timestamps i = t := by
  have hlt : i < timestamps.length := (List.getElem?_eq_some_iff.mp h).1
  rw [timestampAt, if_neg (by omega), List.getD_eq_getElem?_getD, h]
  rfl

section NoCaptureCmd

variable {o : Options} (url : FullCapture → GoString) (pid2Name : GoMap Int GoString)
  (hd : Bool) (tags : GoString) (timestamps : List GoString)

theorem processPids_effects (hcmd : o .captureCmd = ([] : GoString)) (pids : List Int) :
    (processPids o url pid2Name hd tags timestamps pids).1 =
      pids.eraseDups.zipIdx.map fun p =>
        .fullCapture (fullCaptureOf o pid2Name hd tags timestamps p.1 p.2) := by
  have hfold : ∀ (l : List (Int × Nat)) (s : List Effect × List GoString),
      (l.foldl (processPid o url pid2Name hd tags timestamps) s).1 =
      s.1 ++ l.map fun p =>
        .fullCapture (fullCaptureOf o pid2Name hd tags timestamps p.1 p.2) := by
    intro l
    induction l with
    | nil => simp
    | cons p l ih =>
      intro s
      rw [List.foldl_cons, ih, processPid, if_neg (by rw [hcmd]; exact Nat.lt_irrefl 0)]
      simp
  unfold processPids
  split
  · rename_i hempty
    rw [List.length_eq_zero_iff.mp (Nat.le_zero.mp hempty)]
    rfl
  · rw [removeDuplicate_eq, hfold, List.nil_append]

/-- Without a capture command each pid is captured once, and its timestamp stands at the
number of different pids listed before it. -/
theorem processPids_captures (hcmd : o .captureCmd = ([] : GoString)) {pre : List Int} {p : Int}
    (hp : p ∉ pre) (post : List Int) :
    (processPids o url pid2Name hd tags timestamps (pre ++ p :: post)).1.filter (·.pid = p) =
      [.fullCapture (fullCaptureOf o pid2Name hd tags timestamps p pre.toFinset.card)] := by
  obtain ⟨rest, hrest⟩ := Dedup.eraseDups_append_cons hp post
  have hnodup := Dedup.nodup_eraseDups (pre ++ p :: post)
  rw [hrest] at hnodup
  obtain ⟨-, hcons, hdisjoint⟩ := List.nodup_append.mp hnodup
  have hpre : ∀ q ∈ pre.eraseDups, q ≠ p := fun q hq => hdisjoint q hq p List.mem_cons_self
  have hpost : ∀ q ∈ rest, q ≠ p := fun q hq he => (List.nodup_cons.mp hcons).1 (he ▸ hq)
  have hdrop : ∀ (l : List Int) (n : Nat), (∀ q ∈ l, q ≠ p) →
      ((l.zipIdx n).map fun q => Effect.fullCapture
        (fullCaptureOf o pid2Name hd tags timestamps q.1 q.2)).filter (·.pid = p) = [] := by
    intro l n hl
    rw [List.filter_eq_nil_iff]
    intro e he
    obtain ⟨q, hq, rfl⟩ := List.mem_map.mp he
    exact fun hpid => hl q.1 (List.fst_mem_of_mem_zipIdx hq) (of_decide_eq_true hpid)
  rw [processPids_effects url pid2Name hd tags timestamps hcmd, hrest, List.zipIdx_append,
    List.zipIdx_cons, List.map_append, List.map_cons, List.filter_append, hdrop _ _ hpre,
    List.nil_append, Nat.zero_add, Dedup.length_eraseDups]
  rw [List.filter_cons_of_pos (by exact decide_eq_true rfl), hdrop _ _ hpost]

end NoCaptureCmd

end YcAgent.Ondemand
