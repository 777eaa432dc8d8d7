import YcAgent.Base.RangeMap
import YcAgent.Base.Split
import YcAgent.Base.Strings

/-!
# The parameters of an endpoint

A capture adds parameters of its own to the address that it posts to. The slice of the pairs is
made as long as the map and then appended to, so the pairs come behind as many empty ones.
-/
namespace YcAgent.Capture.EndpointParams

open Go

/-- What a `Capture` knows of its address. -/
structure CaptureEndpoint where
  endpoint : GoString
  mapEndpointParams : Option (RangeMap GoString GoString)

namespace CaptureEndpoint

def setEndpoint (cap : CaptureEndpoint) (endpoint : GoString) : CaptureEndpoint :=
  { cap with endpoint := endpoint }

def setEndpointParam (cap : CaptureEndpoint) (name value : GoString) : CaptureEndpoint :=
  { cap with
    mapEndpointParams := some ((cap.mapEndpointParams.getD RangeMap.empty).set name value) }

def removeEndpointParam (cap : CaptureEndpoint) (name : GoString) : CaptureEndpoint :=
  match cap.mapEndpointParams with
  | none => cap
  | some params => { cap with mapEndpointParams := some (params.erase name) }

/-- The entries that `range` goes through; a nil map has none. -/
def params (cap : CaptureEndpoint) : List (GoString × GoString) :=
  match cap.mapEndpointParams with
  | none => []
  | some params => params.entries

end CaptureEndpoint

def pair (kv : GoString × GoString) : GoString := kv.1 ++ str "=" ++ kv.2

def endpointDelimiter (endpoint : GoString) : GoString :=
  if contains endpoint (str "?") then str "&" else str "?"

/-- A call that changes the parameters. -/
inductive Call where
  | setEndpointParam (name value : GoString)
  | removeEndpointParam (name : GoString)

def Call.name : Call → GoString
  | .setEndpointParam name _ | .removeEndpointParam name => name

def CaptureEndpoint.call (cap : CaptureEndpoint) : Call → CaptureEndpoint
  | .setEndpointParam name value => cap.setEndpointParam name value
  | .removeEndpointParam name => cap.removeEndpointParam name

/-- A capture that is given its address, and then the calls. -/
def made (base : GoString) (calls : List Call) : CaptureEndpoint :=
  calls.foldl CaptureEndpoint.call ((⟨[], none⟩ : CaptureEndpoint).setEndpoint base)

/-- The parameter was set, and no later call is about its name. -/
def Remains (calls : List Call) (name value : GoString) : Prop :=
  ∃ before after, calls = before ++ .setEndpointParam name value :: after ∧
    ∀ c ∈ after, c.name ≠ name

section Endpoint

variable (order : RangeOrder GoString GoString)

def CaptureEndpoint.getEndpointWithParams (cap : CaptureEndpoint) : GoString :=
  let pairs := List.replicate cap.params.length [] ++ (order.visit cap.params).map pair
  let endpointParams := join pairs (str "&")
  cap.endpoint ++ endpointDelimiter cap.endpoint ++ endpointParams

/-- `Endpoint`. -/
def CaptureEndpoint.endpointText (cap : CaptureEndpoint) : GoString :=
  if cap.params.length = 0 then cap.endpoint else cap.getEndpointWithParams order

/-- The address alone where no parameter remains, and otherwise the address with each of those
that do, once. -/
def RendersOnce (base : GoString) (calls : List Call) : Prop :=
  ∃ pairs : List (GoString × GoString), (pairs.map Prod.fst).Nodup ∧
    (∀ name value, (name, value) ∈ pairs ↔ Remains calls name value) ∧
    (made base calls).endpointText order =
      if pairs = [] then base
      else base ++ endpointDelimiter base ++ join (pairs.map pair) (str "&")

end Endpoint

/-! ## The parameters that remain -/

theorem remains_snoc {calls : List Call} {c : Call} {name value : GoString} :
    Remains (calls ++ [c]) name value ↔
      c = .setEndpointParam name value ∨ c.name ≠ name ∧ Remains calls name value := by
  constructor
  · rintro ⟨before, after, hcalls, hafter⟩
    rcases List.eq_nil_or_concat' after with rfl | ⟨after', d, rfl⟩
    · obtain ⟨-, hc⟩ := List.append_inj' hcalls rfl
      exact Or.inl (List.head_eq_of_cons_eq hc)
    · rw [← List.cons_append, ← List.append_assoc] at hcalls
      obtain ⟨hbefore, hc⟩ := List.append_inj' hcalls rfl
      have hd : c = d := List.head_eq_of_cons_eq hc
      refine Or.inr ⟨hd ▸ hafter d (by simp), before, after', hbefore, ?_⟩
      intro e he
      exact hafter e (List.mem_append_left _ he)
  · rintro (rfl | ⟨hname, before, after, rfl, hafter⟩)
    · exact ⟨calls, [], rfl, nofun⟩
    · refine ⟨before, after ++ [c], by simp, ?_⟩
      intro e he
      rcases List.mem_append.mp he with he | he
      · exact hafter e he
      · rw [List.mem_singleton.mp he]
        exact hname

theorem made_snoc (base : GoString) (calls : List Call) (c : Call) :
    made base (calls ++ [c]) = (made base calls).call c := by
  rw [made, List.foldl_append]
  rfl

theorem endpoint_call (cap : CaptureEndpoint) (c : Call) :
    (cap.call c).endpoint = cap.endpoint := by
  cases c with
  | setEndpointParam name value => rfl
  | removeEndpointParam name =>
    rw [CaptureEndpoint.call, CaptureEndpoint.removeEndpointParam]
    split <;> rfl

theorem endpoint_made (base : GoString) (calls : List Call) :
    (made base calls).endpoint = base := by
  induction calls using List.reverseRecOn with
  | nil => rfl
  | append_singleton calls c ih => rw [made_snoc, endpoint_call, ih]

theorem nodup_params (cap : CaptureEndpoint) : (cap.params.map Prod.fst).Nodup := by
  unfold CaptureEndpoint.params
  split
  · exact List.nodup_nil
  · rename_i params _
    exact params.nodupKeys

theorem mem_params_setEndpointParam (cap : CaptureEndpoint) (name value : GoString)
    (kv : GoString × GoString) :
    kv ∈ (cap.setEndpointParam name value).params ↔
      kv = (name, value) ∨ kv.1 ≠ name ∧ kv ∈ cap.params := by
  obtain ⟨endpoint, mapEndpointParams⟩ := cap
  cases mapEndpointParams with
  | none => exact RangeMap.mem_set RangeMap.empty name value kv
  | some params => exact RangeMap.mem_set params name value kv

theorem mem_params_removeEndpointParam (cap : CaptureEndpoint) (name : GoString)
    (kv : GoString × GoString) :
    kv ∈ (cap.removeEndpointParam name).params ↔ kv.1 ≠ name ∧ kv ∈ cap.params := by
  obtain ⟨endpoint, mapEndpointParams⟩ := cap
  cases mapEndpointParams with
  | none => exact (and_iff_right_of_imp fun h => absurd h List.not_mem_nil).symm
  | some params => exact RangeMap.mem_erase params name kv

/-- The map holds the parameters that remain. -/
theorem mem_params_made (base : GoString) (calls : List Call) (name value : GoString) :
    (name, value) ∈ (made base calls).params ↔ Remains calls name value := by
  induction calls using List.reverseRecOn with
  | nil =>
    constructor
    · intro h
      cases h
    · rintro ⟨before, after, hcalls, -⟩
      simp at hcalls
  | append_singleton calls c ih =>
    rw [made_snoc, remains_snoc, ← ih]
    cases c with
    | setEndpointParam n v =>
      refine (mem_params_setEndpointParam _ n v (name, value)).trans (or_congr ?_ ?_)
      · rw [Prod.mk.injEq, Call.setEndpointParam.injEq, eq_comm, @eq_comm _ value]
      · exact and_congr_left fun _ => ne_comm
    | removeEndpointParam n =>
      refine (mem_params_removeEndpointParam _ n (name, value)).trans ?_
      rw [or_iff_right Call.noConfusion]
      exact and_congr_left fun _ => ne_comm

/-! ## What is rendered -/

theorem length_join {pieces : List GoString} (h : pieces ≠ []) :
    (join pieces (str "&")).length + 1 = (pieces.map List.length).sum + pieces.length :=
  Text.length_intercalate h

/-- The empty pieces in front make the text longer by one delimiter each. -/
theorem length_join_behind {blank : ℕ} {pieces : List GoString} (h : pieces ≠ []) :
    (join (List.replicate blank [] ++ pieces) (str "&")).length =
      (join pieces (str "&")).length + blank := by
  have hne : List.replicate blank [] ++ pieces ≠ [] := List.append_ne_nil_of_right_ne_nil _ h
  have hall := length_join hne
  have hpieces := length_join h
  simp only [List.map_append, List.sum_append, List.length_append, List.map_replicate,
    List.length_nil, List.sum_replicate, List.length_replicate, nsmul_zero] at hall
  omega

theorem length_join_perm {pieces pieces' : List GoString} (hperm : pieces.Perm pieces') :
    (join pieces (str "&")).length = (join pieces' (str "&")).length := by
  by_cases h : pieces = []
  · subst h
    rw [hperm.nil_eq]
  · have h' : pieces' ≠ [] := fun he => h (he ▸ hperm).eq_nil
    have hleft := length_join h
    have hright := length_join h'
    have hsum : (pieces.map List.length).sum = (pieces'.map List.length).sum :=
      (hperm.map List.length).sum_eq
    have hlength := hperm.length_eq
    omega

section Endpoint

variable {order : RangeOrder GoString GoString}

theorem endpointText_ne {base : GoString} {calls : List Call} {pairs : List (GoString × GoString)}
    (hperm : (made base calls).params.Perm pairs) (hpairs : pairs ≠ []) :
    (made base calls).endpointText order ≠
      base ++ endpointDelimiter base ++ join (pairs.map pair) (str "&") := by
  have hlen : (made base calls).params.length ≠ 0 := by
    rw [hperm.length_eq]
    exact (List.length_pos_iff.mpr hpairs).ne'
  have hvisit : (order.visit (made base calls).params).Perm pairs := (order.perm _).trans hperm
  have hvisited : (order.visit (made base calls).params).map pair ≠ [] := by
    intro he
    exact hpairs (List.map_eq_nil_iff.mp he ▸ hvisit).nil_eq.symm
  rw [CaptureEndpoint.endpointText, if_neg hlen, CaptureEndpoint.getEndpointWithParams,
    endpoint_made]
  intro heq
  have hjoin := congrArg List.length (List.append_cancel_left heq)
  rw [length_join_behind hvisited, length_join_perm (hvisit.map pair)] at hjoin
  omega

theorem not_rendersOnce_of_remains {base : GoString} {calls : List Call} {name value : GoString}
    (hremains : Remains calls name value) : ¬ RendersOnce order base calls := by
  rintro ⟨pairs, hnodup, hmem, htext⟩
  have hpair : (name, value) ∈ pairs := (hmem name value).mpr hremains
  have hpairs : pairs ≠ [] := List.ne_nil_of_mem hpair
  have hperm : (made base calls).params.Perm pairs := by
    refine (List.perm_ext_iff_of_nodup (nodup_params _).of_map hnodup.of_map).mpr ?_
    rintro ⟨n, v⟩
    rw [mem_params_made, hmem]
  rw [if_neg hpairs] at htext
  exact endpointText_ne hperm hpairs htext

theorem rendersOnce_of_none {base : GoString} {calls : List Call}
    (hnone : ∀ name value, ¬ Remains calls name value) : RendersOnce order base calls := by
  have hparams : (made base calls).params = [] := by
    refine List.eq_nil_iff_forall_not_mem.mpr ?_
    rintro ⟨name, value⟩ hmem
    exact hnone name value ((mem_params_made base calls name value).mp hmem)
  refine ⟨[], List.nodup_nil, ?_, ?_⟩
  · intro name value
    exact iff_of_false List.not_mem_nil (hnone name value)
  · rw [CaptureEndpoint.endpointText, hparams, if_pos List.length_nil, if_pos rfl, endpoint_made]

/-- The endpoint is rendered as it should be only where there is nothing to render. -/
theorem rendersOnce_iff (order : RangeOrder GoString GoString) (base : GoString)
    (calls : List Call) :
    RendersOnce order base calls ↔ ∀ name value, ¬ Remains calls name value := by
  constructor
  · intro h name value hremains
    exact not_rendersOnce_of_remains hremains h
  · exact rendersOnce_of_none

/-- The process id of a thread dump is behind an empty parameter. -/
theorem rendersOnce_not_pid :
    ¬ RendersOnce RangeOrder.listed (str "http://host/ycrash")
      [.setEndpointParam (str "pid") (str "7")] :=
  not_rendersOnce_of_remains ⟨[], [], rfl, nofun⟩

end Endpoint

end YcAgent.Capture.EndpointParams
