import YcAgent.Base.Strconv
import YcAgent.Base.FirstWins

/-!
# The actions of an API request

`parseActions` turns the actions into a list of pids, in the order of the actions,
with a text in the place of each action it does not support. The same pid can come
from several actions, and from both halves of one.
-/
namespace YcAgent.Api

open Go

/-- An element of the `[]interface{}` that `parseActions` returns. -/
inductive Entry where
  | int (pid : Int)
  | string (s : GoString)
  deriving DecidableEq

def unsupportedOperation : GoString := str "Unsupported Operation"

/-- What the capture functions find at one moment. The named pids come in the order
in which `range` visits them. -/
structure ProcessTable where
  getTopCpu : Except GoString Int
  getTopMem : Except GoString Int
  getProcessIds : GoString → Except GoString (List (Int × GoString))

structure Parsed where
  result : List Entry
  pid2Name : GoMap Int GoString
  hasCmd : Bool

/-- `if pid > 0 { result = append(result, pid) }`. -/
def Parsed.add (r : Parsed) (pid : Int) : Parsed :=
  if 0 < pid then { r with result := r.result ++ [.int pid] } else r

def Parsed.addNamed (r : Parsed) (p : Int × GoString) : Parsed :=
  if 0 < p.1 then
    { r with result := r.result ++ [.int p.1], pid2Name := r.pid2Name.insert p.1 p.2 }
  else r

def Parsed.addUnsupported (r : Parsed) : Parsed :=
  { r with result := r.result ++ [.string unsupportedOperation], hasCmd := true }

/-- The `switch` over the word behind `capture`. -/
def captureAction (table : ProcessTable) (id : GoString) (r : Parsed) :
    Except GoString Parsed :=
  if id = str "PROCESS_HIGH_CPU" then table.getTopCpu.map r.add
  else if id = str "PROCESS_HIGH_MEMORY" then table.getTopMem.map r.add
  else if id = str "PROCESS_UNKNOWN" then do
    let pid ← table.getTopCpu
    table.getTopMem.map (r.add pid).add
  else match atoi id with
    | some pid => .ok (r.add pid)
    | none =>
      match table.getProcessIds id with
      | .error _ => .ok r
      | .ok p2n => .ok (p2n.foldl Parsed.addNamed r)

/-- One round of the loop. -/
def parseAction (table : ProcessTable) (s : GoString) (r : Parsed) : Except GoString Parsed :=
  if hasPrefix s (str "capture ") then
    match split s space with
    | [_, id] => captureAction table (trimSpace id) r
    | _ => .ok r
  else if s = str "attendance" then .ok r
  else .ok r.addUnsupported

/-- `table i` is what the capture functions find while action `i` is parsed. -/
def parseActions (table : Nat → ProcessTable) (actions : List GoString) :
    Except GoString Parsed :=
  actions.zipIdx.foldlM (fun r action => parseAction (table action.2) action.1 r) ⟨[], ∅, false⟩

/-- The pids of a result list, in its order. -/
def pidsOf (result : List Entry) : List Int :=
  result.filterMap fun
    | .int pid => some pid
    | .string _ => none

@[simp] theorem pidsOf_nil : pidsOf [] = [] := rfl

@[simp] theorem pidsOf_int (pid : Int) (result : List Entry) :
    pidsOf (.int pid :: result) = pid :: pidsOf result := rfl

@[simp] theorem pidsOf_string (s : GoString) (result : List Entry) :
    pidsOf (.string s :: result) = pidsOf result := rfl

theorem mem_pidsOf {result : List Entry} {pid : Int} : pid ∈ pidsOf result ↔ .int pid ∈ result := by
  induction result with
  | nil => simp
  | cons e result ih =>
    cases e with
    | int p => simp [ih]
    | string s => simp [ih]

def Entry.WellFormed : Entry → Prop
  | .int pid => 0 < pid
  | .string s => s = unsupportedOperation

structure Parsed.WellFormed (r : Parsed) : Prop where
  entries : ∀ e ∈ r.result, e.WellFormed
  hasCmd : r.hasCmd = true ↔ .string unsupportedOperation ∈ r.result

namespace Parsed.WellFormed

variable {r : Parsed}

theorem append_int (h : r.WellFormed) {pid : Int} (hpid : 0 < pid) (names : GoMap Int GoString) :
    (⟨r.result ++ [.int pid], names, r.hasCmd⟩ : Parsed).WellFormed where
  entries := by
    intro e he
    rcases List.mem_append.mp he with he | he
    · exact h.entries e he
    · rw [List.mem_singleton.mp he]
      exact hpid
  hasCmd := by
    show r.hasCmd = true ↔ _
    rw [h.hasCmd, List.mem_append]
    simp

theorem add (h : r.WellFormed) (pid : Int) : (r.add pid).WellFormed := by
  unfold Parsed.add
  split
  · rename_i hpid
    exact h.append_int hpid r.pid2Name
  · exact h

theorem addNamed (h : r.WellFormed) (p : Int × GoString) : (r.addNamed p).WellFormed := by
  unfold Parsed.addNamed
  split
  · rename_i hpid
    exact h.append_int hpid _
  · exact h

theorem addUnsupported (h : r.WellFormed) : r.addUnsupported.WellFormed where
  entries := by
    intro e he
    rcases List.mem_append.mp he with he | he
    · exact h.entries e he
    · rw [List.mem_singleton.mp he]
      rfl
  hasCmd := by simp [Parsed.addUnsupported]

theorem foldl_addNamed (h : r.WellFormed) (p2n : List (Int × GoString)) :
    (p2n.foldl Parsed.addNamed r).WellFormed := by
  induction p2n generalizing r with
  | nil => exact h
  | cons p p2n ih => exact ih (h.addNamed p)

theorem captureAction (h : r.WellFormed) {table : ProcessTable} {id : GoString} {r' : Parsed}
    (hr : captureAction table id r = .ok r') : r'.WellFormed := by
  have hmap : ∀ {top : Except GoString Int} {q : Parsed}, q.WellFormed →
      top.map q.add = .ok r' → r'.WellFormed := by
    intro top q hq htop
    cases top with
    | error e => cases htop
    | ok pid =>
      cases htop
      exact hq.add pid
  unfold Api.captureAction at hr
  split at hr
  · exact hmap h hr
  · split at hr
    · exact hmap h hr
    · split at hr
      · cases hcpu : table.getTopCpu with
        | error e =>
          rw [hcpu] at hr
          cases hr
        | ok pid =>
          rw [hcpu] at hr
          exact hmap (h.add pid) hr
      · split at hr
        · cases hr
          exact h.add _
        · split at hr
          · cases hr
            exact h
          · cases hr
            exact h.foldl_addNamed _

theorem parseAction (h : r.WellFormed) {table : ProcessTable} {s : GoString} {r' : Parsed}
    (hr : parseAction table s r = .ok r') : r'.WellFormed := by
  unfold Api.parseAction at hr
  split at hr
  · split at hr
    · exact h.captureAction hr
    · cases hr
      exact h
  · split at hr
    · cases hr
      exact h
    · cases hr
      exact h.addUnsupported

end Parsed.WellFormed

/-- Every pid is positive, every text is the same one, and `hasCmd` says whether it occurs. -/
theorem parseActions_wellFormed {table : Nat → ProcessTable} {actions : List GoString}
    {r : Parsed} (hr : parseActions table actions = .ok r) : r.WellFormed := by
  have hloop : ∀ (l : List (GoString × Nat)) (q : Parsed), q.WellFormed →
      l.foldlM (fun r action => parseAction (table action.2) action.1 r) q = .ok r →
        r.WellFormed := by
    intro l
    induction l with
    | nil =>
      intro q hq hrun
      cases hrun
      exact hq
    | cons action l ih =>
      intro q hq hrun
      rw [List.foldlM_cons] at hrun
      cases hstep : parseAction (table action.2) action.1 q with
      | error e =>
        rw [hstep] at hrun
        cases hrun
      | ok q' =>
        rw [hstep] at hrun
        exact ih q' (hq.parseAction hstep) hrun
  refine hloop _ _ ⟨?_, ?_⟩ hr
  · simp
  · simp

end YcAgent.Api
