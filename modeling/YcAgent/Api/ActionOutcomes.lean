import YcAgent.Base.Decimal
import YcAgent.Api.Worker

/-!
# What a request gets

An accepted request whose calls all succeed is answered from one row per distinct entry,
in the order of `range`. The first call that fails kills the agent, whatever the other
calls return.
-/
namespace YcAgent.Api

open Go

variable {o : Options} {table : Nat → ProcessTable} {isProcessExists : Int → Bool} {s : Server}
  {order : RangeOrder Entry ProcessPidsResult} {req : ActionRequest} {parsed : Parsed}

section Calls

variable (o s req parsed)

/-- No call for a pid of the result list returns an error. -/
def NoCallFails : Prop :=
  ∀ k pid, (pidsOf parsed.result)[k]? = some pid → ¬ CallFails o s req parsed k pid

/-- Call number `n` is the first that returns an error. -/
def FirstFailure (n : Nat) : Prop :=
  (∃ pid, (pidsOf parsed.result)[n]? = some pid ∧ CallFails o s req parsed n pid) ∧
    ∀ k < n, ∀ pid, (pidsOf parsed.result)[k]? = some pid → ¬ CallFails o s req parsed k pid

theorem noCallFails_or_firstFailure :
    NoCallFails o s req parsed ∨ ∃ n, FirstFailure o s req parsed n := by
  classical
  by_cases h : ∃ n pid, (pidsOf parsed.result)[n]? = some pid ∧ CallFails o s req parsed n pid
  · refine Or.inr ⟨Nat.find h, Nat.find_spec h, ?_⟩
    intro k hk pid hpid hfail
    exact Nat.find_min h hk ⟨pid, hpid, hfail⟩
  · refine Or.inl ?_
    intro k pid hpid hfail
    exact h ⟨k, pid, hpid, hfail⟩

theorem not_noCallFails_of_firstFailure {n : Nat} (h : FirstFailure o s req parsed n) :
    ¬ NoCallFails o s req parsed := by
  obtain ⟨⟨pid, hpid, hfail⟩, -⟩ := h
  exact fun hno => hno n pid hpid hfail

/-- The rows of the map after the last entry. -/
def results : RangeMap Entry ProcessPidsResult :=
  RangeMap.empty.setAll (stored o s req parsed 0 parsed.result)

end Calls

theorem FirstFailure.unique {m n : Nat} (hm : FirstFailure o s req parsed m)
    (hn : FirstFailure o s req parsed n) : m = n := by
  obtain ⟨⟨p, hp, hfp⟩, hbm⟩ := hm
  obtain ⟨⟨q, hq, hfq⟩, hbn⟩ := hn
  rcases Nat.lt_trichotomy m n with hlt | heq | hgt
  · exact absurd hfp (hbn m hlt p hp)
  · exact heq
  · exact absurd hfq (hbm n hgt q hq)

variable (o s req parsed) in
theorem keys_results : (results o s req parsed).keys = parsed.result.eraseDups := by
  rw [results, RangeMap.keys_setAll_empty, keys_stored]

variable (o s req parsed) in
theorem length_results :
    (results o s req parsed).entries.length = parsed.result.eraseDups.length := by
  rw [← keys_results o s req parsed, RangeMap.keys, List.length_map]

theorem results_row : ∀ kv ∈ (results o s req parsed).entries,
    kv.2.err = none ∧ kv.2.output.head? = some kv.1.name :=
  RangeMap.forall_setAll (by simp [RangeMap.empty]) (stored_row o s req parsed)

theorem work_ok (h : NoCallFails o s req parsed) :
    work o s order none req parsed =
      (some (filled ((order.visit (results o s req parsed).entries).map Prod.snd)),
        (pidsOf parsed.result).map (invocation o req parsed)) := by
  have hrun : processEntries o s none req parsed ⟨[], RangeMap.empty⟩ parsed.result =
      .ok ⟨(pidsOf parsed.result).map (invocation o req parsed), results o s req parsed⟩ := by
    refine processEntries_ok ?_
    intro k pid hk
    rw [List.length_nil, Nat.zero_add]
    exact h k pid hk
  rw [work, hrun]
  simp only
  rw [populate_of_no_error fun kv hkv => (results_row kv hkv).1]

theorem work_error {n : Nat} (h : FirstFailure o s req parsed n) :
    work o s order none req parsed =
      (none, ((pidsOf parsed.result).take (n + 1)).map (invocation o req parsed)) := by
  obtain ⟨⟨pid, hpid, hfail⟩, hbefore⟩ := h
  have hzero : ∀ k, ([] : List Invocation).length + k = k := fun k => Nat.zero_add k
  obtain ⟨m, hrun⟩ := processEntries_error (w := ⟨[], RangeMap.empty⟩) hpid
    (by rw [hzero]; exact hfail)
    (by
      intro k hk p hp
      rw [hzero]
      exact hbefore k hk p hp)
  rw [work, hrun]
  rfl

theorem handleActionAPI_accepted (h : Accepted o table isProcessExists req parsed) :
    handleActionAPI o table isProcessExists s order req =
      let (filled, invocations) := work o s order none req parsed
      ⟨if req.waitFor || parsed.hasCmd then filled else some ActionResponse.new,
        invocations, filled.isNone⟩ := by
  rw [handleActionAPI, if_neg (not_not.mpr h.key), h.parse]
  simp only [h.valid, Bool.true_eq_false, if_false]

/-- An accepted request without a failing call. -/
theorem handled_ok (h : Accepted o table isProcessExists req parsed)
    (hcalls : NoCallFails o s req parsed) :
    handleActionAPI o table isProcessExists s order req =
      ⟨some (if req.waitFor || parsed.hasCmd then
          filled ((order.visit (results o s req parsed).entries).map Prod.snd)
        else ActionResponse.new),
        (pidsOf parsed.result).map (invocation o req parsed), false⟩ := by
  rw [handleActionAPI_accepted h, work_ok hcalls]
  simp only [Option.isNone_some]
  split <;> rfl

/-- An accepted request with a failing call. -/
theorem handled_panic (h : Accepted o table isProcessExists req parsed) {n : Nat}
    (hfail : FirstFailure o s req parsed n) :
    handleActionAPI o table isProcessExists s order req =
      ⟨if req.waitFor || parsed.hasCmd then none else some ActionResponse.new,
        ((pidsOf parsed.result).take (n + 1)).map (invocation o req parsed), true⟩ := by
  rw [handleActionAPI_accepted h, work_error hfail]
  rfl

/-! ## One capture for each pid -/

section CapturedOnce

variable (o table isProcessExists s order req parsed)

/-- The calls made are one for each distinct pid, and with `WaitFor` there is a response
that lists every URL a call returned. -/
structure CapturedOnce : Prop where
  invoked :
    ((handleActionAPI o table isProcessExists s order req).invocations.map
      Invocation.pids).Perm ((pidsOf parsed.result).eraseDups.map fun pid => [pid])
  urls : req.waitFor = true →
    ∃ resp, (handleActionAPI o table isProcessExists s order req).resp = some resp ∧
      ∀ i call, (handleActionAPI o table isProcessExists s order req).invocations[i]? = some call →
        ∀ url ∈ (s.processPids i call).1, url ∈ resp.dashboardReportURLs

end CapturedOnce

theorem perm_eraseDups_iff {l m : List Int} (hsub : l ⊆ m) :
    l.Perm m.eraseDups ↔ l.Nodup ∧ m ⊆ l := by
  constructor
  · intro h
    refine ⟨h.nodup_iff.mpr (Dedup.nodup_eraseDups m), ?_⟩
    intro x hx
    exact h.mem_iff.mpr (List.mem_eraseDups.mpr hx)
  · intro ⟨hnodup, hsup⟩
    refine (List.perm_ext_iff_of_nodup hnodup (Dedup.nodup_eraseDups m)).mpr ?_
    intro x
    rw [List.mem_eraseDups]
    exact ⟨fun hx => hsub hx, fun hx => hsup hx⟩

theorem invoked_perm_iff {l m : List Int} (hsub : l ⊆ m) :
    ((l.map (invocation o req parsed)).map Invocation.pids).Perm
      (m.eraseDups.map fun pid => [pid]) ↔ l.Nodup ∧ m ⊆ l := by
  have hpids : (l.map (invocation o req parsed)).map Invocation.pids = l.map fun pid => [pid] := by
    rw [List.map_map]
    rfl
  have hinj : Function.Injective fun pid : Int => [pid] := List.singleton_injective
  rw [hpids, List.map_perm_map_iff hinj, perm_eraseDups_iff hsub]

/-- The URLs of a pid that occurs once stay in the map. -/
theorem url_mem_filled {k : Nat} {pid : Int} (hnodup : (pidsOf parsed.result).Nodup)
    (hk : (pidsOf parsed.result)[k]? = some pid) {url : GoString}
    (hurl : url ∈ (callResult o s req parsed k pid).1) :
    url ∈ (filled ((order.visit (results o s req parsed).entries).map
      Prod.snd)).dashboardReportURLs := by
  obtain ⟨before, after, hresult, -, hstored⟩ := stored_split o s req parsed (i := 0) hk
  rw [Nat.zero_add] at hstored
  have hafter : Entry.int pid ∉ after := by
    intro hmem
    rw [hresult] at hnodup
    have hsplit : pidsOf (before ++ .int pid :: after) = pidsOf before ++ pid :: pidsOf after := by
      rw [pidsOf, List.filterMap_append]
      rfl
    rw [hsplit] at hnodup
    have hcons := (List.nodup_append.mp hnodup).2.1
    exact (List.nodup_cons.mp hcons).1 (mem_pidsOf.mpr hmem)
  have hrow : (Entry.int pid, (⟨(callResult o s req parsed k pid).1, none,
      itoa pid :: (callResult o s req parsed k pid).1⟩ : ProcessPidsResult)) ∈
      (results o s req parsed).entries := by
    rw [results, hstored]
    refine RangeMap.mem_setAll_of_last _ _ _ ?_
    intro p hp he
    have hkey : p.1 = Entry.int pid := he
    refine hafter ?_
    rw [← hkey, ← keys_stored o s req parsed (k + 1) after]
    exact List.mem_map_of_mem hp
  refine List.mem_flatMap.mpr ⟨_, List.mem_map_of_mem ((order.mem_visit _ _).mpr hrow), hurl⟩

theorem capturedOnce_of_noCallFails (h : Accepted o table isProcessExists req parsed)
    (hcalls : NoCallFails o s req parsed) :
    CapturedOnce o table isProcessExists s order req parsed ↔ (pidsOf parsed.result).Nodup := by
  have hhandled : handleActionAPI o table isProcessExists s order req = _ := handled_ok h hcalls
  constructor
  · intro hcaptured
    have hinvoked := hcaptured.invoked
    rw [hhandled] at hinvoked
    exact ((invoked_perm_iff (List.Subset.refl _)).mp hinvoked).1
  · intro hnodup
    refine ⟨?_, ?_⟩
    · rw [hhandled]
      exact (invoked_perm_iff (List.Subset.refl _)).mpr ⟨hnodup, List.Subset.refl _⟩
    · intro hwait
      rw [hhandled]
      refine ⟨_, rfl, ?_⟩
      intro i call hcall url hurl
      rw [List.getElem?_map] at hcall
      obtain ⟨pid, hpid, rfl⟩ := Option.map_eq_some_iff.mp hcall
      simp only [hwait, Bool.true_or, if_true]
      exact url_mem_filled hnodup hpid hurl

theorem capturedOnce_of_firstFailure (h : Accepted o table isProcessExists req parsed) {n : Nat}
    (hn : FirstFailure o s req parsed n) :
    CapturedOnce o table isProcessExists s order req parsed ↔
      req.waitFor = false ∧ ((pidsOf parsed.result).take (n + 1)).Nodup ∧
        pidsOf parsed.result ⊆ (pidsOf parsed.result).take (n + 1) := by
  have hhandled : handleActionAPI o table isProcessExists s order req = _ := handled_panic h hn
  have hsub : (pidsOf parsed.result).take (n + 1) ⊆ pidsOf parsed.result := List.take_subset _ _
  constructor
  · intro hcaptured
    refine ⟨?_, ?_⟩
    · cases hwait : req.waitFor with
      | false => rfl
      | true =>
        obtain ⟨resp, hresp, -⟩ := hcaptured.urls hwait
        rw [hhandled] at hresp
        simp [hwait] at hresp
    · have hinvoked := hcaptured.invoked
      rw [hhandled] at hinvoked
      exact (invoked_perm_iff hsub).mp hinvoked
  · intro ⟨hwait, hnames⟩
    refine ⟨?_, ?_⟩
    · rw [hhandled]
      exact (invoked_perm_iff hsub).mpr hnames
    · intro htrue
      rw [hwait] at htrue
      cases htrue

/-- The pids are captured once each when they are different and no call fails; without
`WaitFor` also when the first failing call ends a part of the list that names every pid
once. -/
theorem capturedOnce_iff (h : Accepted o table isProcessExists req parsed) :
    CapturedOnce o table isProcessExists s order req parsed ↔
      (NoCallFails o s req parsed ∧ (pidsOf parsed.result).Nodup) ∨
      (req.waitFor = false ∧ ∃ n, FirstFailure o s req parsed n ∧
        ((pidsOf parsed.result).take (n + 1)).Nodup ∧
        pidsOf parsed.result ⊆ (pidsOf parsed.result).take (n + 1)) := by
  rcases noCallFails_or_firstFailure o s req parsed with hcalls | ⟨n, hn⟩
  · rw [capturedOnce_of_noCallFails h hcalls]
    constructor
    · intro hnodup
      exact Or.inl ⟨hcalls, hnodup⟩
    · intro hright
      rcases hright with ⟨-, hnodup⟩ | ⟨-, m, hm, -⟩
      · exact hnodup
      · exact absurd hcalls (not_noCallFails_of_firstFailure o s req parsed hm)
  · rw [capturedOnce_of_firstFailure h hn]
    constructor
    · intro ⟨hwait, hnames⟩
      exact Or.inr ⟨hwait, n, hn, hnames⟩
    · intro hright
      rcases hright with ⟨hcalls, -⟩ | ⟨hwait, m, hm, hnames⟩
      · exact absurd hcalls (not_noCallFails_of_firstFailure o s req parsed hn)
      · rw [hm.unique hn] at hnames
        exact ⟨hwait, hnames⟩

/-- A process table in which one process is both top CPU and top memory. -/
def busyTable : ProcessTable := ⟨.ok 42, .ok 42, fun _ => .ok []⟩

/-- Call number `i` returns the URL `/i`. -/
def reporting : Server := ⟨fun i _ => ([str "/" ++ itoa i], none)⟩

def waiting (actions : List GoString) : ActionRequest := ⟨[], actions, true, none, []⟩

theorem accepted_two_pids : Accepted defaultOptions (fun _ => busyTable) (fun _ => true)
    (waiting [str "capture 7", str "capture 8"]) ⟨[.int 7, .int 8], ∅, false⟩ where
  key := rfl
  parse := rfl
  valid := rfl

theorem capturedOnce_two_pids :
    CapturedOnce defaultOptions (fun _ => busyTable) (fun _ => true) reporting .listed
      (waiting [str "capture 7", str "capture 8"]) ⟨[.int 7, .int 8], ∅, false⟩ := by
  refine (capturedOnce_iff accepted_two_pids).mpr (Or.inl ⟨?_, by decide⟩)
  intro k pid _ hfail
  exact hfail rfl

/-- One process found twice is captured twice, and the first URL is lost. -/
theorem captured_twice :
    ¬ ∀ (o : Options) (table : Nat → ProcessTable) (isProcessExists : Int → Bool) (s : Server)
      (order : RangeOrder Entry ProcessPidsResult) (req : ActionRequest) (parsed : Parsed),
      Accepted o table isProcessExists req parsed →
        CapturedOnce o table isProcessExists s order req parsed := by
  intro hall
  have hcaptured := hall defaultOptions (fun _ => busyTable) (fun _ => true) reporting .listed
    (waiting [str "capture PROCESS_UNKNOWN"]) ⟨[.int 42, .int 42], ∅, false⟩ ⟨rfl, rfl, rfl⟩
  have hlen := hcaptured.invoked.length_eq
  revert hlen
  decide

end YcAgent.Api
