import YcAgent.Api.ActionOutcomes

/-!
# Failures and the order of the rows

A call that fails is never reported: the worker dereferences the handler's own nil error.
A response with several rows shows them in the order in which `range` visits a map, not
in the order of the request.
-/
namespace YcAgent.Api

open Go

variable {o : Options} {table : Nat → ProcessTable} {isProcessExists : Int → Bool} {s : Server}
  {order : RangeOrder Entry ProcessPidsResult} {req : ActionRequest} {parsed : Parsed}

/-! ## Failing calls -/

section ReportsFailures

variable (o s req parsed)

/-- The response carries the error of call `k`, made for `pid`, and the URLs of the calls
that succeed. -/
structure CarriesFailure (resp : ActionResponse) (pid : Int) (e : GoString) : Prop where
  single : parsed.result.eraseDups.length = 1 → resp.code = -1 ∧ resp.msg = e
  row : parsed.result.eraseDups.length ≠ 1 →
    ∃ row ∈ resp.output, row.head? = some (itoa pid) ∧ e ∈ row
  urls : ∀ j q, (pidsOf parsed.result)[j]? = some q → ¬ CallFails o s req parsed j q →
    ∀ url ∈ (callResult o s req parsed j q).1, url ∈ resp.dashboardReportURLs

variable (table isProcessExists order)

/-- When a call fails the agent survives it, and the response says so. -/
def ReportsFailures : Prop :=
  ∀ k pid e, (pidsOf parsed.result)[k]? = some pid →
    (callResult o s req parsed k pid).2 = some e →
      (handleActionAPI o table isProcessExists s order req).panicked = false ∧
      (req.waitFor = true →
        ∃ resp, (handleActionAPI o table isProcessExists s order req).resp = some resp ∧
          CarriesFailure o s req parsed resp pid e)

end ReportsFailures

/-- Failures are reported only by requests that have none. -/
theorem reportsFailures_iff (h : Accepted o table isProcessExists req parsed) :
    ReportsFailures o table isProcessExists s order req parsed ↔ NoCallFails o s req parsed := by
  constructor
  · intro hreports
    rcases noCallFails_or_firstFailure o s req parsed with hcalls | ⟨n, hn⟩
    · exact hcalls
    · obtain ⟨⟨pid, hpid, hfail⟩, -⟩ := id hn
      obtain ⟨e, he⟩ := Option.ne_none_iff_exists'.mp hfail
      obtain ⟨halive, -⟩ := hreports n pid e hpid he
      rw [handled_panic h hn] at halive
      cases halive
  · intro hcalls k pid e hpid he
    refine absurd ?_ (hcalls k pid hpid)
    rw [CallFails, he]
    exact Option.some_ne_none e

theorem reportsFailures_two_pids :
    ReportsFailures defaultOptions (fun _ => busyTable) (fun _ => true) reporting .listed
      (waiting [str "capture 7", str "capture 8"]) ⟨[.int 7, .int 8], ∅, false⟩ := by
  refine (reportsFailures_iff accepted_two_pids).mpr ?_
  intro k pid _ hfail
  exact hfail rfl

/-- One failing pid kills the agent. -/
theorem failure_kills_agent :
    ¬ ∀ (o : Options) (table : Nat → ProcessTable) (isProcessExists : Int → Bool) (s : Server)
      (order : RangeOrder Entry ProcessPidsResult) (req : ActionRequest) (parsed : Parsed),
      Accepted o table isProcessExists req parsed →
        ReportsFailures o table isProcessExists s order req parsed := by
  intro hall
  have hreports := hall defaultOptions (fun _ => busyTable) (fun _ => true)
    ⟨fun _ _ => ([], some (str "capture failed"))⟩ .listed
    (waiting [str "capture 7"]) ⟨[.int 7], ∅, false⟩ ⟨rfl, rfl, rfl⟩
  obtain ⟨halive, -⟩ := hreports 0 7 (str "capture failed") rfl rfl
  revert halive
  decide

/-! ## The order of the rows -/

/-- The rows and the URLs are those of some of the distinct entries, in their order. -/
def InRequestOrder (result : List Entry) (resp : ActionResponse) : Prop :=
  ∃ (kept : List Entry) (row : Entry → ProcessPidsResult), kept.Sublist result.eraseDups ∧
    (∀ e ∈ kept, (row e).output.head? = some e.name) ∧
    resp.output = kept.map (fun e => (row e).output) ∧
    resp.dashboardReportURLs = kept.flatMap (fun e => (row e).rUrls)

section OrderIndependent

variable (o table isProcessExists s req parsed)

/-- Every order of `range` gives the same response, with its rows in the request's order. -/
def OrderIndependent : Prop :=
  ∃ resp, (∀ order, (handleActionAPI o table isProcessExists s order req).resp = some resp) ∧
    InRequestOrder parsed.result resp

end OrderIndependent

theorem Entry.name_inj {e f : Entry} (he : e.WellFormed) (hf : f.WellFormed)
    (h : e.name = f.name) : e = f := by
  have htext : ∀ pid : Int, itoa pid ≠ unsupportedOperation := by
    intro pid hpid
    have hmem : (85 : Byte) ∈ itoa pid := by
      rw [hpid]
      decide
    rcases itoa_bytes 85 hmem with hdigit | hminus
    · exact absurd hdigit (by decide)
    · exact absurd hminus (by decide)
  cases e with
  | int p =>
    cases f with
    | int q => exact congrArg Entry.int (itoa_injective h)
    | string t => exact absurd h (htext p)
  | string u =>
    cases f with
    | int q => exact absurd h.symm (htext q)
    | string t =>
      have hu : u = unsupportedOperation := he
      have ht : t = unsupportedOperation := hf
      rw [hu, ht]

/-- The names in the first column are all different. -/
theorem nodup_names (hresult : ∀ e ∈ parsed.result, e.WellFormed) :
    ((results o s req parsed).entries.map fun kv => kv.2.output).Nodup := by
  refine List.Nodup.of_map List.head? ?_
  have hnames : ((results o s req parsed).entries.map fun kv => kv.2.output).map List.head? =
      (results o s req parsed).keys.map fun e => some e.name := by
    rw [RangeMap.keys, List.map_map, List.map_map]
    refine List.map_congr_left ?_
    intro kv hkv
    exact (results_row kv hkv).2
  rw [hnames, keys_results]
  refine List.Nodup.map_on ?_ (Dedup.nodup_eraseDups _)
  intro e he f hf hname
  exact Entry.name_inj (hresult e (List.mem_eraseDups.mp he)) (hresult f (List.mem_eraseDups.mp hf))
    (Option.some.inj hname)

/-- With two rows, the listed order and its reverse give different responses. -/
theorem not_orderIndependent (h : Accepted o table isProcessExists req parsed)
    (hwait : req.waitFor = true) (htwo : 2 ≤ parsed.result.eraseDups.length) :
    ¬ OrderIndependent o table isProcessExists s req parsed := by
  intro hindependent
  obtain ⟨resp, hsame, -⟩ := hindependent
  rcases noCallFails_or_firstFailure o s req parsed with hcalls | ⟨n, hn⟩
  · have hlen := length_results o s req parsed
    have hrows : ∀ order : RangeOrder Entry ProcessPidsResult, resp.output =
        ((order.visit (results o s req parsed).entries).map Prod.snd).map
          ProcessPidsResult.output := by
      intro order
      have hresp := hsame order
      rw [handled_ok h hcalls] at hresp
      simp only [hwait, Bool.true_or, if_true, Option.some.injEq] at hresp
      rw [← hresp, filled, if_neg]
      rw [List.length_map, (order.perm _).length_eq]
      omega
    have hlisted := hrows .listed
    have hreversed := hrows .reversed
    simp only [RangeOrder.listed, RangeOrder.reversed, id, List.map_reverse, List.map_map]
      at hlisted hreversed
    have hone : resp.output.length ≤ 1 := by
      refine length_le_one_of_reverse_eq ?_ ?_
      · rw [hlisted]
        exact nodup_names (parseActions_wellFormed h.parse).entries
      · exact (congrArg List.reverse hlisted).trans hreversed.symm
    rw [hlisted, List.length_map] at hone
    omega
  · have hresp := hsame .listed
    rw [handled_panic h hn] at hresp
    simp [hwait] at hresp

/-- A list with two distinct entries is refused for its pids, and without any row. -/
theorem validate_of_two_entries {result : List Entry} (htwo : 2 ≤ result.eraseDups.length)
    (hinvalid : (validateActionAPIParseResult isProcessExists result).1 = false) :
    validateActionAPIParseResult isProcessExists result =
      (false, str "You have entered non-existent process ids.", []) := by
  have hmixed : result.length ≠ result.countP fun i => i = .string unsupportedOperation := by
    intro hlen
    have hall : ∀ e ∈ result, e = .string unsupportedOperation := by
      intro e he
      simpa using List.countP_eq_length.mp hlen.symm e he
    have hrepeat : result.eraseDups =
        List.replicate result.eraseDups.length (.string unsupportedOperation) :=
      List.eq_replicate_of_mem fun e he => hall e (List.mem_eraseDups.mp he)
    have hnodup := Dedup.nodup_eraseDups result
    rw [hrepeat, List.nodup_replicate] at hnodup
    omega
  unfold validateActionAPIParseResult at hinvalid ⊢
  simp only [if_neg hmixed] at hinvalid ⊢
  split at hinvalid
  · cases hinvalid
  · rename_i hnone
    rw [if_neg hnone]

/-- The response is the same for every order only when the request is refused before the
worker starts. -/
theorem orderIndependent_iff (hparse : parseActions table req.actions = .ok parsed)
    (hwait : req.waitFor = true) (htwo : 2 ≤ parsed.result.eraseDups.length) :
    OrderIndependent o table isProcessExists s req parsed ↔
      apiKey o ≠ req.key ∨
        (validateActionAPIParseResult isProcessExists parsed.result).1 = false := by
  constructor
  · intro hsame
    by_contra hrefused
    push Not at hrefused
    obtain ⟨hkey, hvalid⟩ := hrefused
    exact not_orderIndependent ⟨hkey, hparse, by simpa using hvalid⟩ hwait htwo hsame
  · intro hrefused
    have hempty : ∀ msg, InRequestOrder parsed.result (.failed msg) := by
      intro msg
      exact ⟨[], fun _ => ⟨[], none, []⟩, List.nil_sublist _,
      fun e he => absurd he List.not_mem_nil,
        rfl, rfl⟩
    by_cases hkey : apiKey o ≠ req.key
    · refine ⟨_, ?_, hempty (str "invalid key passed")⟩
      intro order
      rw [handleActionAPI, if_pos hkey]
    · have hinvalid := hrefused.resolve_left hkey
      have hvalidate := validate_of_two_entries htwo hinvalid
      refine ⟨_, ?_, hempty (str "You have entered non-existent process ids.")⟩
      intro order
      rw [handleActionAPI, if_neg hkey, hparse]
      simp only [hvalidate, if_true]
      rfl

theorem orderIndependent_foreign_key :
    OrderIndependent defaultOptions (fun _ => busyTable) (fun _ => true) reporting
      ⟨str "k", [str "capture 7", str "capture 8"], true, none, []⟩
      ⟨[.int 7, .int 8], ∅, false⟩ :=
  (orderIndependent_iff rfl rfl (by decide)).mpr (Or.inl (by decide))

/-- Two pids are answered in either order. -/
theorem rows_follow_map_order :
    ¬ ∀ (o : Options) (table : Nat → ProcessTable) (isProcessExists : Int → Bool) (s : Server)
      (req : ActionRequest) (parsed : Parsed), parseActions table req.actions = .ok parsed →
        req.waitFor = true → 2 ≤ parsed.result.eraseDups.length →
          OrderIndependent o table isProcessExists s req parsed := by
  intro hall
  obtain ⟨resp, hsame, -⟩ := hall defaultOptions (fun _ => busyTable) (fun _ => true) reporting
    (waiting [str "capture 7", str "capture 8"]) ⟨[.int 7, .int 8], ∅, false⟩ rfl rfl (by decide)
  have hboth := (hsame .listed).trans (hsame .reversed).symm
  revert hboth
  decide

end YcAgent.Api
