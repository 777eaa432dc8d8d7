import YcAgent.Agent.ProcessPids
import YcAgent.Base.Strconv
import Mathlib.Data.Set.Card

/-!
# The response at the end of an M3 cycle

The server answers `m3-fin` with actions and timestamps. The actions that are
captures become pids, and `ProcessPids` joins the pids with the timestamps by
position. Skipped and repeated actions shift the pids but not the timestamps.
-/
namespace YcAgent.M3

open Go Ondemand

structure M3FinResponse where
  actions : List GoString
  tags : List GoString
  timestamp : GoString
  timestamps : List GoString

/-- The pid of one action, in the loop of `ParseM3FinResponse`. -/
def capturePid (s : GoString) : Option Int :=
  if hasPrefix s (str "capture ") then
    let ss := split s space
    if ss.length = 2 then atoi (ss.getD 1 []) else none
  else none

structure ParsedM3Fin where
  pids : List Int
  tags : List GoString
  timestamps : List GoString

/-- The field `Timestamps`, or the legacy field where that is empty. -/
def M3FinResponse.allTimestamps (r : M3FinResponse) : List GoString :=
  if 0 < r.timestamps.length then r.timestamps
  else if r.timestamp ≠ [] then [r.timestamp]
  else []

/-- `unmarshal` is the JSON decoder. -/
def parseM3FinResponse (unmarshal : GoString → Except GoString M3FinResponse) (resp : GoString) :
    Except GoString ParsedM3Fin := do
  let r ← unmarshal resp
  return ⟨r.actions.filterMap capturePid, r.tags, r.allTimestamps⟩

/-- The configured tags and those of the response, without commas at the ends. -/
def finTags (o : Options) (tags : List GoString) : GoString :=
  let comma : Byte := 44
  let t := join tags [comma]
  let tmp : GoString := o .tags
  if 0 < tmp.length then trim (trim tmp comma ++ [comma] ++ t) comma else trim t comma

def processM3FinResponse (o : Options) (unmarshal : GoString → Except GoString M3FinResponse)
    (url : FullCapture → GoString) (resp : GoString) (pid2Name : GoMap Int GoString) :
    Except GoString (List Effect × List GoString) := do
  let r ← parseM3FinResponse unmarshal resp
  return processPids o url pid2Name (o .heapDump) (finTags o r.tags) r.timestamps r.pids

/-- The action asks to capture process `p`. -/
def Captures (a : GoString) (p : Int) : Prop :=
  ∃ id, a = str "capture " ++ id ∧ atoi id = some p

theorem split_capture (id : GoString) :
    split (str "capture " ++ id) space = str "capture" :: split id space := by
  have hspace : str "capture " ++ id = str "capture" ++ space :: id := by
    rw [show str "capture " = str "capture" ++ [space] from by decide, List.append_assoc]
    rfl
  rw [hspace]
  exact List.splitOn_append_cons_self_of_not_mem (by decide) id

theorem capturePid_iff (a : GoString) (p : Int) : capturePid a = some p ↔ Captures a p := by
  unfold capturePid
  split
  · rename_i hpre
    obtain ⟨id, rfl⟩ := (hasPrefix_iff _ _).mp hpre
    rw [split_capture]
    have hcaptures : Captures (str "capture " ++ id) p ↔ atoi id = some p :=
      ⟨fun ⟨id', he, h⟩ => (List.append_cancel_left he) ▸ h, fun h => ⟨id, rfl, h⟩⟩
    rw [hcaptures]
    by_cases hid : space ∈ id
    · have hnone : atoi id ≠ some p := fun h => space_not_mem_of_atoi h hid
      have hlen := two_le_length_split hid
      rw [if_neg (by rw [List.length_cons]; omega)]
      exact ⟨fun h => (nomatch h), fun h => absurd h hnone⟩
    · have hsplit : split id space = [id] := List.splitOn_eq_singleton hid
      rw [hsplit]
      exact Iff.rfl
  · rename_i hpre
    constructor
    · intro h
      cases h
    · rintro ⟨id, rfl, -⟩
      exact absurd ((hasPrefix_iff _ _).mpr (List.prefix_append _ _)) hpre

/-- `actions[i]` is the first action that captures `p`. -/
def First (actions : List GoString) (i : Nat) (p : Int) : Prop :=
  (∃ a, actions[i]? = some a ∧ Captures a p) ∧ ∀ a ∈ actions.take i, ¬ Captures a p

/-- How many different processes the actions before `actions[i]` capture. -/
noncomputable def slot (actions : List GoString) (i : Nat) : Nat :=
  {p | ∃ a ∈ actions.take i, Captures a p}.ncard

theorem mem_filterMap_capturePid (actions : List GoString) (p : Int) :
    p ∈ actions.filterMap capturePid ↔ ∃ a ∈ actions, Captures a p := by
  simp only [List.mem_filterMap, capturePid_iff]

theorem slot_eq_card (actions : List GoString) (i : Nat) :
    slot actions i = ((actions.take i).filterMap capturePid).toFinset.card := by
  rw [slot, ← Set.ncard_coe_finset]
  congr 1
  ext p
  rw [Finset.mem_coe, List.mem_toFinset, mem_filterMap_capturePid]
  rfl

theorem slot_le (actions : List GoString) (i : Nat) : slot actions i ≤ i := by
  rw [slot_eq_card]
  have hcard := List.toFinset_card_le ((actions.take i).filterMap capturePid)
  have hfilter := List.length_filterMap_le capturePid (actions.take i)
  have htake := List.length_take_le i actions
  omega

/-- A first capture splits the pids of the response at its own. -/
theorem pids_of_first {actions : List GoString} {i : Nat} {p : Int} (h : First actions i p) :
    p ∉ (actions.take i).filterMap capturePid ∧
      ∃ post, actions.filterMap capturePid =
        (actions.take i).filterMap capturePid ++ p :: post := by
  obtain ⟨⟨a, ha, hcapture⟩, hfirst⟩ := h
  refine ⟨fun hmem => ?_, (actions.drop (i + 1)).filterMap capturePid, ?_⟩
  · obtain ⟨b, hb, hbp⟩ := (mem_filterMap_capturePid _ _).mp hmem
    exact hfirst b hb hbp
  · obtain ⟨hi, rfl⟩ := List.getElem?_eq_some_iff.mp ha
    have hdrop : actions.drop i = actions[i] :: actions.drop (i + 1) := List.drop_eq_getElem_cons hi
    conv_lhs => rw [← List.take_append_drop i actions, hdrop]
    rw [List.filterMap_append, List.filterMap_cons_some ((capturePid_iff _ _).mpr hcapture)]

section Pairing

variable {o : Options} {unmarshal : GoString → Except GoString M3FinResponse}
  (url : FullCapture → GoString) {resp : GoString} (pid2Name : GoMap Int GoString)
  {r : M3FinResponse}

/-- The one capture of a process gets the timestamp at its slot, not at its action. -/
theorem processM3FinResponse_captures (hr : unmarshal resp = .ok r)
    (hlen : r.actions.length = r.timestamps.length) (hcmd : o .captureCmd = ([] : GoString))
    {i : Nat} {p : Int} (h : First r.actions i p) :
    ∃ effects rUrls call, processM3FinResponse o unmarshal url resp pid2Name =
        .ok (effects, rUrls) ∧
      effects.filter (·.pid = p) = [.fullCapture call] ∧
      some call.tsParam = r.timestamps[slot r.actions i]? := by
  obtain ⟨hnew, post, hpids⟩ := pids_of_first h
  have hi : i < r.timestamps.length := by
    obtain ⟨⟨a, ha, -⟩, -⟩ := h
    rw [← hlen]
    exact (List.getElem?_eq_some_iff.mp ha).1
  have hall : r.allTimestamps = r.timestamps := if_pos (Nat.zero_lt_of_lt hi)
  have hslot : slot r.actions i < r.timestamps.length := by
    have hle := slot_le r.actions i
    omega
  have hcall := processPids_captures url pid2Name (o .heapDump) (finTags o r.tags)
    r.allTimestamps hcmd hnew post
  rw [← hpids, ← slot_eq_card, hall] at hcall
  refine ⟨_, (processPids o url pid2Name (o .heapDump) (finTags o r.tags) r.timestamps
    (r.actions.filterMap capturePid)).2, _, ?_, hcall, ?_⟩
  · rw [processM3FinResponse, parseM3FinResponse, hr, ← hall]
    rfl
  · have hsome := List.getElem?_eq_getElem hslot
    rw [hsome]
    exact congrArg some (timestampAt_eq hsome)

theorem processM3FinResponse_ok (hr : unmarshal resp = .ok r) :
    ∃ effects rUrls, processM3FinResponse o unmarshal url resp pid2Name = .ok (effects, rUrls) := by
  simp only [processM3FinResponse, parseM3FinResponse, hr]
  exact ⟨_, _, rfl⟩

/-- Every first capture is made once and with the timestamp of its action, exactly where
the timestamp at its slot is the timestamp of the action. -/
theorem processM3FinResponse_pairs_iff (hr : unmarshal resp = .ok r)
    (hlen : r.actions.length = r.timestamps.length) (hcmd : o .captureCmd = ([] : GoString)) :
    ∃ effects rUrls, processM3FinResponse o unmarshal url resp pid2Name = .ok (effects, rUrls) ∧
      ((∀ i p, First r.actions i p → ∃ call, effects.filter (·.pid = p) = [.fullCapture call] ∧
          some call.tsParam = r.timestamps[i]?) ↔
        ∀ i p, First r.actions i p → r.timestamps[slot r.actions i]? = r.timestamps[i]?) := by
  obtain ⟨effects, rUrls, hok⟩ := processM3FinResponse_ok (o := o) url pid2Name hr
  refine ⟨effects, rUrls, hok, forall_congr' fun i => forall_congr' fun p => ?_⟩
  refine forall_congr' fun hfirst => ?_
  obtain ⟨effects', rUrls', call, hok', hcall, hts⟩ :=
    processM3FinResponse_captures url pid2Name hr hlen hcmd hfirst
  obtain ⟨rfl, rfl⟩ := Prod.mk.inj (Except.ok.inj (hok.symm.trans hok'))
  rw [← hts, hcall]
  constructor
  · intro hex
    obtain ⟨call', hcall', hts'⟩ := hex
    obtain rfl : call = call' := by simpa using hcall'
    exact hts'
  · exact fun h => ⟨call, rfl, h⟩

end Pairing

def sampleUnmarshal (r : M3FinResponse) (_ : GoString) : Except GoString M3FinResponse := .ok r

/-- An unsupported action in front of the capture of process 5. -/
def skippedResponse : M3FinResponse :=
  ⟨[str "foo", str "capture 5"], [], [], [str "t0", str "t1"]⟩

theorem first_skipped : First skippedResponse.actions 1 5 := by
  refine ⟨⟨_, rfl, (capturePid_iff _ _).mp (by decide)⟩, fun a ha h => ?_⟩
  rw [List.mem_singleton.mp (show a ∈ [str "foo"] from ha)] at h
  exact absurd ((capturePid_iff _ _).mpr h) (by decide)

/-- Process 5 is captured with the timestamp of the unsupported action. -/
theorem processM3FinResponse_shifts_timestamp :
    ∃ effects rUrls, processM3FinResponse defaultOptions (sampleUnmarshal skippedResponse)
        (fun _ => []) [] ∅ = .ok (effects, rUrls) ∧
      ¬ ∀ i p, First skippedResponse.actions i p →
        ∃ call, effects.filter (·.pid = p) = [.fullCapture call] ∧
          some call.tsParam = skippedResponse.timestamps[i]? := by
  refine ⟨_, _, rfl, fun hall => ?_⟩
  obtain ⟨call, hcall, hts⟩ := hall 1 5 first_skipped
  have hmade : [Effect.fullCapture ⟨5, [], false, [], str "t0"⟩] = [.fullCapture call] := hcall
  obtain rfl : (⟨5, [], false, [], str "t0"⟩ : FullCapture) = call := by simpa using hmade
  exact absurd hts (by decide)

theorem processM3FinResponse_pairs_iff_skipped :
    ∃ effects rUrls, processM3FinResponse defaultOptions (sampleUnmarshal skippedResponse)
        (fun _ => []) [] ∅ = .ok (effects, rUrls) ∧
      ((∀ i p, First skippedResponse.actions i p →
          ∃ call, effects.filter (·.pid = p) = [.fullCapture call] ∧
            some call.tsParam = skippedResponse.timestamps[i]?) ↔
        ∀ i p, First skippedResponse.actions i p →
          skippedResponse.timestamps[slot skippedResponse.actions i]? =
            skippedResponse.timestamps[i]?) :=
  processM3FinResponse_pairs_iff (fun _ => []) ∅ rfl rfl rfl

end YcAgent.M3
