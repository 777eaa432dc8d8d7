import YcAgent.Capture.Boomi

/-!
# Pages and a count that do not agree

The connectors come in pages like the execution records, from a loop of their own. Both loops
stop where a response claims no more records than there are by then, and nothing else tells
them the last page: its empty token asks for the first page again.
-/
namespace YcAgent.Capture.Boomi

open Go

/-- The request for connectors, which has no filter. -/
def makeAtomConnectorsRequest (queryToken username password boomiURL : GoString) : Request :=
  if queryToken = [] then
    ⟨boomiURL, (username, password), (str "Accept", str "application/json"), []⟩
  else
    ⟨boomiURL ++ str "More", (username, password),
      (str "Content-Type", str "application/json"), queryToken⟩

section Fetch

variable {R : Type*} (post : List Request → Request → Option Response)
  (unmarshal : GoString → Except GoString (QueryResult R))
  (boomiUserName boomiPassword boomiURL : GoString)

def stoppedConnectors (numberOfResults : Int) (totalRecordCount : Nat) : Bool :=
  decide (numberOfResults ≤ totalRecordCount)

/-- One turn of the loop over connectors. The error of a request is not looked at; without a
response its status code is read from nil. -/
def connectorTurn (s : Fetching R) : Option (Fetched R) ⊕ Fetching R :=
  let req := makeAtomConnectorsRequest s.queryToken boomiUserName boomiPassword boomiURL
  let requests := s.requests ++ [req]
  match post s.requests req with
  | none => .inl none
  | some resp =>
    if resp.statusCode ≠ 200 then .inl (some ⟨s.records, none, requests⟩)
    else
      match unmarshal resp.body with
      | .error e =>
        .inl (some ⟨s.records, some (str "Error unmarshalling Boomi response as JSON: " ++ e),
          requests⟩)
      | .ok q =>
        if q.result.length ≤ 0 then .inl (some ⟨s.records, none, requests⟩)
        else (pageTurn stoppedConnectors q { s with requests := requests }).map some id

/-- `fetchAtomConnectorDetails`, where at most `fuel` requests are enough; `some none` is a
panic. -/
def fetchAtomConnectorDetails (fuel : Nat) : Option (Option (Fetched R)) :=
  Loop.run (connectorTurn post unmarshal boomiUserName boomiPassword boomiURL) fuel
    ⟨[], 0, [], []⟩

end Fetch

/-! ## A chain of pages -/

section Chain

variable {R ρ : Type*}

/-- A server answers every request for a page with it, the last page with an empty token, and
claims any number of results. -/
structure Chain (respond : List Request → Request → Option Response)
    (unmarshal : GoString → Except GoString (QueryResult R)) (boomiURL : GoString)
    (pages : List (Page R)) (claimed : List Request → Request → Int) : Prop where
  first : pages.head?.map Page.token = some []
  nonempty : ∀ page ∈ pages, page.result ≠ []
  answers : ∀ (i : Nat) (page : Page R), pages[i]? = some page →
    ∀ past req, Asks boomiURL page.token req →
      ∃ resp q, respond past req = some resp ∧ resp.statusCode = 200 ∧
        unmarshal resp.body = .ok q ∧ q.result = page.result ∧
        q.numberOfResults = claimed past req ∧
        q.queryToken = (pages[i + 1]?.map Page.token).getD []

/-- The requests of a loop that goes once through the pages, where `mk i` makes the `i`-th. -/
def requestsFrom (mk : Nat → GoString → Request) (pages : List (Page R)) : List Request :=
  pages.zipIdx.map fun page => mk page.2 page.1.token

/-- One of the responses to these requests claims no more records than there are by then. -/
def StopsInChain (stop : Int → Nat → Bool) (claimed : List Request → Request → Int)
    (requests : List Request) (pages : List (Page R)) : Prop :=
  ∃ i req, requests[i]? = some req ∧
    stop (claimed (requests.take i) req) (held (pages.take (i + 1))).length = true

/-- The records are the first ones of the server, none of them more often than there. -/
structure FromChain (pages : List (Page R)) (fetched : Fetched R) : Prop where
  isPrefix : fetched.records <+: held pages
  count : ∀ p : R → Bool, fetched.records.countP p ≤ (held pages).countP p

theorem fromChain_iff {pages : List (Page R)} {fetched : Fetched R} :
    FromChain pages fetched ↔ fetched.records <+: held pages :=
  ⟨FromChain.isPrefix, fun h => ⟨h, fun _ => h.sublist.countP_le⟩⟩

/-- What a turn does to the records: a return or the next state has them in front. -/
def Grows (out : Fetched R → ρ) (s : Fetching R) (result : ρ ⊕ Fetching R) : Prop :=
  (∀ f, result = .inl (out f) → s.records <+: f.records) ∧
    ∀ t, result = .inr t → s.records <+: t.records

/-- What the turns of the two loops have in common; `out` makes a return of a result. -/
structure PagedTurn (respond : List Request → Request → Option Response)
    (unmarshal : GoString → Except GoString (QueryResult R)) (mk : Nat → GoString → Request)
    (stop : Int → Nat → Bool) (out : Fetched R → ρ) (turn : Fetching R → ρ ⊕ Fetching R) :
    Prop where
  injective : Function.Injective out
  answered : ∀ s resp q, respond s.requests (mk s.requests.length s.queryToken) = some resp →
    resp.statusCode = 200 → unmarshal resp.body = .ok q → q.result ≠ [] →
      turn s = (pageTurn stop q
        { s with requests := s.requests ++ [mk s.requests.length s.queryToken] }).map out id
  grows : ∀ s, Grows out s (turn s)

theorem pageTurn_limit {stop : Int → Nat → Bool} {limit : Int → Nat}
    (hstop : ∀ n, stop n = fun t => decide (limit n ≤ t)) (q : QueryResult R) (s : Fetching R)
    (hne : q.result ≠ []) :
    pageTurn stop q s =
      if stop q.numberOfResults (s.totalRecordCount + q.result.length) = true then
        .inl ⟨s.records ++ q.result.take (max 1 (limit q.numberOfResults - s.totalRecordCount)),
          none, s.requests⟩
      else .inr ⟨s.records ++ q.result, s.totalRecordCount + q.result.length, q.queryToken,
        s.requests⟩ := by
  have hpos := List.length_pos_iff.mpr hne
  unfold pageTurn
  rw [hstop, addPage_eq]
  by_cases hle : limit q.numberOfResults ≤ s.totalRecordCount + q.result.length
  · have hnot : ¬q.result.length < max 1 (limit q.numberOfResults - s.totalRecordCount) := by omega
    simp only [hle, decide_true, if_true, if_neg hnot]
  · have hlt : q.result.length < max 1 (limit q.numberOfResults - s.totalRecordCount) := by omega
    simp only [hle, decide_false, if_pos hlt, Bool.false_eq_true, if_false]

variable {respond : List Request → Request → Option Response}
  {unmarshal : GoString → Except GoString (QueryResult R)} {boomiURL : GoString}
  {pages done rest : List (Page R)} {page : Page R} {claimed : List Request → Request → Int}
  {mk : Nat → GoString → Request} {stop : Int → Nat → Bool} {limit : Int → Nat}
  {out : Fetched R → ρ} {turn : Fetching R → ρ ⊕ Fetching R} {s : Fetching R}

theorem getElem?_requestsFrom (mk : Nat → GoString → Request) {i : Nat} {page : Page R}
    (h : pages[i]? = some page) :
    (requestsFrom mk pages)[i]? = some (mk i page.token) := by
  rw [requestsFrom, List.getElem?_map, List.getElem?_zipIdx, h]
  simp

theorem length_requestsFrom (mk : Nat → GoString → Request) (pages : List (Page R)) :
    (requestsFrom mk pages).length = pages.length := by
  rw [requestsFrom, List.length_map, List.length_zipIdx]

/-- In the first pass, behind all of the pages in `done`. -/
structure InPass (mk : Nat → GoString → Request) (pages done : List (Page R)) (s : Fetching R) :
    Prop where
  records : s.records = held done
  count : s.totalRecordCount = (held done).length
  token : s.queryToken = (pages[done.length]?.map Page.token).getD []
  requests : s.requests = (requestsFrom mk pages).take done.length

/-- The turn for `page` stops in it where its response claims no more, or takes all of it. -/
theorem turn_inPass (hturn : PagedTurn respond unmarshal mk stop out turn)
    (hstop : ∀ n, stop n = fun t => decide (limit n ≤ t))
    (hmk : ∀ i token, Asks boomiURL token (mk i token))
    (hchain : Chain respond unmarshal boomiURL pages claimed)
    (hpages : pages = done ++ page :: rest)
    (h : InPass mk pages done s) :
    let req := mk done.length page.token
    if stop (claimed ((requestsFrom mk pages).take done.length) req)
        (held (done ++ [page])).length = true then
      ∃ fetched, turn s = .inl (out fetched) ∧ fetched.records <+: held pages
    else ∃ t, turn s = .inr t ∧ InPass mk pages (done ++ [page]) t := by
  intro req
  have hpage : pages[done.length]? = some page := page_at hpages
  have hlt : done.length < (requestsFrom mk pages).length := by
    rw [length_requestsFrom, hpages, List.length_append, List.length_cons]
    omega
  have hnumber : s.requests.length = done.length := by
    rw [h.requests, List.length_take]
    omega
  have htoken : s.queryToken = page.token := by rw [h.token, hpage]; rfl
  have hreq : mk s.requests.length s.queryToken = req := by rw [hnumber, htoken]
  obtain ⟨resp, q, hresp, hstatus, hbody, hresult, hclaimed, hnext⟩ :=
    hchain.answers done.length page hpage s.requests req (hmk ..)
  have hne : q.result ≠ [] := hresult ▸ hchain.nonempty page (List.mem_of_getElem? hpage)
  rw [← hreq] at hresp
  rw [hturn.answered s resp q hresp hstatus hbody hne, hreq, pageTurn_limit hstop _ _ hne,
    hclaimed, hresult, held_snoc, List.length_append, h.count, h.requests]
  split
  · refine ⟨_, rfl, ?_⟩
    rw [h.records, held_split hpages, List.prefix_append_right_inj]
    exact (List.take_prefix _ _).trans (List.prefix_append _ _)
  · have hrequest := getElem?_requestsFrom mk hpage
    refine ⟨⟨s.records ++ page.result, (held done).length + page.result.length, q.queryToken,
      (requestsFrom mk pages).take done.length ++ [req]⟩, rfl, ?_, ?_, ?_, ?_⟩
    · rw [held_snoc, h.records]
    · rw [held_snoc, List.length_append]
    · rw [hnext, List.length_append, List.length_singleton]
    · rw [List.length_append, List.length_singleton, List.take_add_one, hrequest]
      rfl

/-- From a place in the first pass on, one of the remaining responses ends the loop, or all
pages are taken. -/
theorem returns_or_passes (hturn : PagedTurn respond unmarshal mk stop out turn)
    (hstop : ∀ n, stop n = fun t => decide (limit n ≤ t))
    (hmk : ∀ i token, Asks boomiURL token (mk i token))
    (hchain : Chain respond unmarshal boomiURL pages claimed) (hpages : pages = done ++ rest)
    (h : InPass mk pages done s) :
    (StopsInChain stop claimed (requestsFrom mk pages) pages ∧
        ∃ fetched, Loop.Returns turn s (out fetched) ∧ fetched.records <+: held pages) ∨
      ((∀ i, done.length ≤ i → ∀ req, (requestsFrom mk pages)[i]? = some req →
          stop (claimed ((requestsFrom mk pages).take i) req)
            (held (pages.take (i + 1))).length ≠ true) ∧
        ∃ t, InPass mk pages pages t ∧ ∀ r, Loop.Returns turn s r → Loop.Returns turn t r) := by
  induction rest generalizing done s with
  | nil =>
    right
    rw [List.append_nil] at hpages
    refine ⟨fun i hi req hreq => ?_, s, hpages ▸ h, fun r hr => hr⟩
    have hlt := (List.getElem?_eq_some_iff.mp hreq).1
    rw [length_requestsFrom, hpages] at hlt
    exact absurd hi (Nat.not_le.mpr hlt)
  | cons page rest ih =>
    have hpage : pages[done.length]? = some page := page_at hpages
    have htake : pages.take (done.length + 1) = done ++ [page] := by
      rw [hpages, List.take_length_add_append]
      rfl
    have hhere := turn_inPass hturn hstop hmk hchain hpages h
    dsimp only at hhere
    split at hhere
    · rename_i hstops
      obtain ⟨fetched, hinl, hprefix⟩ := hhere
      left
      refine ⟨⟨done.length, _, getElem?_requestsFrom mk hpage, ?_⟩, fetched,
        Loop.returns_done hinl, hprefix⟩
      rw [htake]
      exact hstops
    · rename_i hgoes
      obtain ⟨t, hinr, ht⟩ := hhere
      have hsnoc : pages = (done ++ [page]) ++ rest := by rw [hpages, List.append_assoc]; rfl
      obtain hreturn | hpass := ih hsnoc ht
      · obtain ⟨hstops, fetched, hr, hprefix⟩ := hreturn
        exact Or.inl ⟨hstops, fetched, Loop.returns_next hinr hr, hprefix⟩
      · obtain ⟨hnone, t', ht', hreturns⟩ := hpass
        right
        refine ⟨fun i hi req hreq => ?_, t', ht', fun r hr => hreturns r (hr.next hinr)⟩
        obtain hlt | heq := Nat.lt_or_eq_of_le hi
        · refine hnone i ?_ req hreq
          rw [List.length_append, List.length_singleton]
          exact hlt
        · subst heq
          rw [getElem?_requestsFrom mk hpage] at hreq
          cases hreq
          rw [htake]
          exact hgoes

/-- Behind the last page its empty token asks for the first one again, so that more records
come back than there are. -/
theorem length_of_passed (hturn : PagedTurn respond unmarshal mk stop out turn)
    (hstop : ∀ n, stop n = fun t => decide (limit n ≤ t))
    (hmk : ∀ i token, Asks boomiURL token (mk i token))
    (hchain : Chain respond unmarshal boomiURL pages claimed) (h : InPass mk pages pages s)
    {fetched : Fetched R} (hr : Loop.Returns turn s (out fetched)) :
    (held pages).length < fetched.records.length := by
  obtain ⟨page, hpage, hfirst⟩ := Option.map_eq_some_iff.mp hchain.first
  rw [List.head?_eq_getElem?] at hpage
  have htoken : s.queryToken = page.token := by
    rw [h.token, List.getElem?_eq_none (Nat.le_refl _), hfirst]
    rfl
  obtain ⟨resp, q, hresp, hstatus, hbody, hresult, -, -⟩ := hchain.answers 0 page hpage
    s.requests (mk s.requests.length s.queryToken) (htoken ▸ hmk ..)
  have hne : q.result ≠ [] := hresult ▸ hchain.nonempty page (List.mem_of_getElem? hpage)
  have hpos := List.length_pos_iff.mpr hne
  have heq := hturn.answered s resp q hresp hstatus hbody hne
  rw [pageTurn_limit hstop _ _ hne, h.records] at heq
  have hlonger : ∀ t : Fetching R, (held pages).length < t.records.length →
      ∀ r, Loop.Returns turn t r → ∀ f, r = out f → (held pages).length < f.records.length := by
    intro t ht r hr
    refine Loop.Returns.invariant (I := fun t => (held pages).length < t.records.length)
      (Q := fun r => ∀ f, r = out f → (held pages).length < f.records.length) ?_ ?_ hr ht
    · intro t r ht hinl f hf
      exact Nat.lt_of_lt_of_le ht ((hturn.grows t).1 f (hf ▸ hinl)).length_le
    · intro t u ht hinr
      exact Nat.lt_of_lt_of_le ht ((hturn.grows t).2 u hinr).length_le
  split at heq
  · have hdone := hturn.injective (hr.unique (Loop.returns_done heq))
    rw [hdone, List.length_append, List.length_take]
    omega
  · refine hlonger _ ?_ _ (hr.next heq) fetched rfl
    show (held pages).length < (held pages ++ q.result).length
    rw [List.length_append]
    omega

/-- A loop over a chain of pages returns its first records exactly where a response of the
first pass claims no more records than there are by then. -/
theorem returns_fromChain_iff (hturn : PagedTurn respond unmarshal mk stop out turn)
    (hstop : ∀ n, stop n = fun t => decide (limit n ≤ t))
    (hmk : ∀ i token, Asks boomiURL token (mk i token))
    (hchain : Chain respond unmarshal boomiURL pages claimed) :
    (∃ fetched, Loop.Returns turn ⟨[], 0, [], []⟩ (out fetched) ∧ FromChain pages fetched) ↔
      StopsInChain stop claimed (requestsFrom mk pages) pages := by
  have htoken : (pages[0]?.map Page.token).getD [] = [] := by
    rw [← List.head?_eq_getElem?, hchain.first]
    rfl
  have hstart : InPass mk pages [] ⟨[], 0, [], []⟩ := ⟨rfl, rfl, htoken.symm, rfl⟩
  obtain hreturn | hpass := returns_or_passes hturn hstop hmk hchain rfl hstart
  · obtain ⟨hstops, fetched, hr, hprefix⟩ := hreturn
    exact iff_of_true ⟨fetched, hr, fromChain_iff.mpr hprefix⟩ hstops
  · obtain ⟨hnone, t, ht, hreturns⟩ := hpass
    refine iff_of_false (fun hex => ?_) fun hstops => ?_
    · obtain ⟨fetched, hr, hprefix⟩ := hex
      have hlonger := length_of_passed hturn hstop hmk hchain ht (hreturns _ hr)
      exact Nat.not_lt.mpr hprefix.isPrefix.length_le hlonger
    · obtain ⟨i, req, hreq, hclaims⟩ := hstops
      exact hnone i (Nat.zero_le i) req hreq hclaims

end Chain

/-! ## The two loops -/

section Loops

variable {R ρ : Type*} (o : Options) (times : Nat → Nat → GoString × GoString)
  {post : List Request → Request → Except GoString Response}
  {respond : List Request → Request → Option Response}
  {unmarshal : GoString → Except GoString (QueryResult R)}
  (boomiUserName boomiPassword boomiURL : GoString)

theorem stoppedConnectors_eq (numberOfResults : Int) :
    stoppedConnectors numberOfResults = fun t => decide (numberOfResults.toNat ≤ t) := by
  funext t
  refine decide_eq_decide.mpr ?_
  omega

theorem asks_makeAtomConnectorsRequest (queryToken username password boomiURL : GoString) :
    Asks boomiURL queryToken
      (makeAtomConnectorsRequest queryToken username password boomiURL) := by
  unfold Asks makeAtomConnectorsRequest
  split
  · rfl
  · exact ⟨rfl, rfl⟩

theorem grows_returned {out : Fetched R → ρ} (hout : Function.Injective out) (s : Fetching R)
    (err : Option GoString) (requests : List Request) :
    Grows out s (.inl (out ⟨s.records, err, requests⟩)) := by
  refine ⟨fun f hf => ?_, fun t ht => by cases ht⟩
  rw [← hout (Sum.inl.inj hf)]

theorem grows_pageTurn {stop : Int → Nat → Bool} {limit : Int → Nat}
    (hstop : ∀ n, stop n = fun t => decide (limit n ≤ t)) {out : Fetched R → ρ}
    (hout : Function.Injective out) {q : QueryResult R} (hne : ¬q.result.length ≤ 0)
    (s : Fetching R) (requests : List Request) :
    Grows out s ((pageTurn stop q { s with requests := requests }).map out id) := by
  rw [pageTurn_limit hstop q _ (List.length_pos_iff.mp (Nat.not_le.mp hne))]
  split
  · refine ⟨fun f hf => ?_, fun t ht => by cases ht⟩
    rw [← hout (Sum.inl.inj hf)]
    exact List.prefix_append _ _
  · refine ⟨(fun f hf => by cases hf), fun t ht => ?_⟩
    rw [← Sum.inr.inj ht]
    exact List.prefix_append _ _

theorem grows_fetchTurn (s : Fetching R) :
    Grows id s (fetchTurn o times post unmarshal boomiUserName boomiPassword boomiURL s) := by
  unfold fetchTurn
  dsimp only
  split
  · exact grows_returned Function.injective_id s _ _
  · split
    · exact grows_returned Function.injective_id s _ _
    · split
      · exact grows_returned Function.injective_id s _ _
      · split
        · exact grows_returned Function.injective_id s _ _
        · rename_i hlength
          have hgrows := grows_pageTurn stopped_eq Function.injective_id hlength s
          simp only [Sum.map_id_id, id] at hgrows
          exact hgrows _

theorem pagedTurn_fetchTurn :
    PagedTurn (fun past req => (post past req).toOption) unmarshal
      (fun i token => makeBoomiRequest o (times i) token boomiUserName boomiPassword boomiURL)
      stopped id
      (fetchTurn o times post unmarshal boomiUserName boomiPassword boomiURL) where
  injective := Function.injective_id
  answered := by
    intro s resp q hresp hstatus hbody hne
    cases hpost : post s.requests (makeBoomiRequest o (times s.requests.length) s.queryToken
        boomiUserName boomiPassword boomiURL) with
    | error e =>
      rw [hpost] at hresp
      cases hresp
    | ok resp' =>
      rw [hpost] at hresp
      cases hresp
      rw [Sum.map_id_id, id, fetchTurn_answered rfl hpost hstatus hbody hne]
  grows := grows_fetchTurn o times boomiUserName boomiPassword boomiURL

theorem grows_connectorTurn (s : Fetching R) :
    Grows some s (connectorTurn respond unmarshal boomiUserName boomiPassword boomiURL s) := by
  have hsome : Function.Injective (some : Fetched R → Option (Fetched R)) :=
    Option.some_injective _
  unfold connectorTurn
  dsimp only
  split
  · exact ⟨(fun f hf => by cases hf), fun t ht => by cases ht⟩
  · split
    · exact grows_returned hsome s _ _
    · split
      · exact grows_returned hsome s _ _
      · split
        · exact grows_returned hsome s _ _
        · rename_i hlength
          exact grows_pageTurn stoppedConnectors_eq hsome hlength s _

theorem pagedTurn_connectorTurn :
    PagedTurn respond unmarshal
      (fun _ token => makeAtomConnectorsRequest token boomiUserName boomiPassword boomiURL)
      stoppedConnectors some
      (connectorTurn respond unmarshal boomiUserName boomiPassword boomiURL) where
  injective := Option.some_injective _
  answered := by
    intro s resp q hresp hstatus hbody hne
    have hlength : ¬q.result.length ≤ 0 := Nat.not_le.mpr (List.length_pos_iff.mpr hne)
    unfold connectorTurn
    simp only [hresp, hstatus, hbody, ne_eq, not_true_eq_false, if_false, hlength]
  grows := grows_connectorTurn boomiUserName boomiPassword boomiURL

end Loops

/-- Against any chains of pages, whatever number of results their responses claim, the two
loops return the first records of the chain, each where a response of its first pass claims
no more records than there are by then; for the execution records ten thousand are enough. -/
theorem fetches_fromChain_iff {R R' : Type*} (o : Options)
    (times : Nat → Nat → GoString × GoString) (boomiUserName boomiPassword : GoString)
    (post : List Request → Request → Except GoString Response)
    (unmarshal : GoString → Except GoString (QueryResult R)) (boomiURL : GoString)
    (pages : List (Page R)) (claimed : List Request → Request → Int)
    (hchain : Chain (fun past req => (post past req).toOption) unmarshal boomiURL pages claimed)
    (respond : List Request → Request → Option Response)
    (unmarshal' : GoString → Except GoString (QueryResult R')) (atomConnectorURL : GoString)
    (pages' : List (Page R')) (claimed' : List Request → Request → Int)
    (hchain' : Chain respond unmarshal' atomConnectorURL pages' claimed') :
    ((∃ fuel fetched, fetchBoomiExecutionRecords o times post unmarshal boomiUserName
          boomiPassword boomiURL fuel = some fetched ∧ FromChain pages fetched) ↔
        StopsInChain stopped claimed
          (requestsFrom (fun i token =>
            makeBoomiRequest o (times i) token boomiUserName boomiPassword boomiURL) pages)
          pages) ∧
      ((∃ fuel fetched, fetchAtomConnectorDetails respond unmarshal' boomiUserName boomiPassword
          atomConnectorURL fuel = some (some fetched) ∧ FromChain pages' fetched) ↔
        StopsInChain stoppedConnectors claimed'
          (requestsFrom (fun _ token =>
            makeAtomConnectorsRequest token boomiUserName boomiPassword atomConnectorURL) pages')
          pages') := by
  have hrecords := returns_fromChain_iff
    (pagedTurn_fetchTurn o times boomiUserName boomiPassword boomiURL) stopped_eq
    (fun i token => asks_makeBoomiRequest o (times i) token boomiUserName boomiPassword boomiURL)
    hchain
  have hconnectors := returns_fromChain_iff
    (pagedTurn_connectorTurn boomiUserName boomiPassword atomConnectorURL) stoppedConnectors_eq
    (fun _ token =>
      asks_makeAtomConnectorsRequest token boomiUserName boomiPassword atomConnectorURL)
    hchain'
  constructor
  · rw [← hrecords]
    constructor
    · intro ⟨fuel, fetched, hfuel, hfrom⟩
      exact ⟨fetched, ⟨fuel, hfuel⟩, hfrom⟩
    · intro ⟨fetched, ⟨fuel, hfuel⟩, hfrom⟩
      exact ⟨fuel, fetched, hfuel, hfrom⟩
  · rw [← hconnectors]
    constructor
    · intro ⟨fuel, fetched, hfuel, hfrom⟩
      exact ⟨fetched, ⟨fuel, hfuel⟩, hfrom⟩
    · intro ⟨fetched, ⟨fuel, hfuel⟩, hfrom⟩
      exact ⟨fuel, fetched, hfuel, hfrom⟩

/-- A server with one page of one record, which claims `n` results. -/
def onePage : List (Page GoString) := [⟨[], [str "execution-1"]⟩]

def pageBody (n : Int) : GoString :=
  str "\x7b\"result\":[\x7b\"executionId\":\"execution-1\"\x7d],\"queryToken\":\"\"," ++
    str "\"numberOfResults\":" ++ itoa n ++ str "\x7d"

def postOnePage (boomiURL : GoString) (n : Int) (_ : List Request) (req : Request) :
    Except GoString Response :=
  if req.url = boomiURL then .ok ⟨200, pageBody n⟩ else .ok ⟨400, []⟩

def unmarshalOnePage (n : Int) (body : GoString) : Except GoString (QueryResult GoString) :=
  if body = pageBody n then .ok ⟨[str "execution-1"], [], n⟩
  else .error (str "unexpected end of JSON input")

theorem chain_onePage (boomiURL : GoString) (n : Int) :
    Chain (fun past req => (postOnePage boomiURL n past req).toOption) (unmarshalOnePage n)
      boomiURL onePage (fun _ _ => n) := by
  refine ⟨rfl, by decide, fun i page hpage past req hasks => ?_⟩
  match i, hpage with
  | 0, hpage =>
    cases hpage
    refine ⟨⟨200, pageBody n⟩, ⟨[str "execution-1"], [], n⟩, ?_, rfl, if_pos rfl, rfl, rfl, rfl⟩
    have hurl : req.url = boomiURL := hasks
    rw [postOnePage, if_pos hurl]
    rfl
  | i + 1, hpage => cases hpage

theorem fetches_fromChain_onePage :
    (∃ fuel fetched, fetchBoomiExecutionRecords defaultOptions (fun _ _ => ([], []))
        (postOnePage (str "https://host/query") 1) (unmarshalOnePage 1) (str "user")
        (str "password") (str "https://host/query") fuel = some fetched ∧
          FromChain onePage fetched) ∧
      ∃ fuel fetched, fetchAtomConnectorDetails
        (fun past req => (postOnePage (str "https://host/query") 1 past req).toOption)
        (unmarshalOnePage 1) (str "user") (str "password") (str "https://host/query") fuel =
          some (some fetched) ∧ FromChain onePage fetched := by
  have hboth := fetches_fromChain_iff defaultOptions (fun _ _ => ([], [])) (str "user")
    (str "password") (postOnePage (str "https://host/query") 1) (unmarshalOnePage 1)
    (str "https://host/query") onePage (fun _ _ => 1) (chain_onePage _ 1)
    (fun past req => (postOnePage (str "https://host/query") 1 past req).toOption)
    (unmarshalOnePage 1) (str "https://host/query") onePage (fun _ _ => 1) (chain_onePage _ 1)
  exact ⟨hboth.1.mpr ⟨0, _, rfl, rfl⟩, hboth.2.mpr ⟨0, _, rfl, rfl⟩⟩

/-- One record, and a response that claims two: the record comes back twice. -/
theorem fetches_record_twice :
    ¬ ∀ (o : Options) (times : Nat → Nat → GoString × GoString)
      (boomiUserName boomiPassword : GoString)
      (post : List Request → Request → Except GoString Response)
      (unmarshal : GoString → Except GoString (QueryResult GoString)) (boomiURL : GoString)
      (pages : List (Page GoString)) (claimed : List Request → Request → Int),
      Chain (fun past req => (post past req).toOption) unmarshal boomiURL pages claimed →
        ∃ fuel fetched, fetchBoomiExecutionRecords o times post unmarshal boomiUserName
          boomiPassword boomiURL fuel = some fetched ∧ FromChain pages fetched := by
  intro h
  obtain ⟨fuel, fetched, hfuel, hfrom⟩ := h defaultOptions (fun _ _ => ([], [])) (str "user")
    (str "password") (postOnePage (str "https://host/query") 2) (unmarshalOnePage 2)
    (str "https://host/query") onePage (fun _ _ => 2) (chain_onePage _ 2)
  have hstops := (returns_fromChain_iff (pagedTurn_fetchTurn _ _ _ _ _) stopped_eq
    (fun i token => asks_makeBoomiRequest _ _ token _ _ _) (chain_onePage _ 2)).mp
    ⟨fetched, ⟨fuel, hfuel⟩, hfrom⟩
  obtain ⟨i, req, hreq, hclaims⟩ := hstops
  match i, hreq with
  | 0, _ =>
    have hstopped : stopped 2 1 = true := hclaims
    exact absurd hstopped (by decide)
  | i + 1, hreq => cases hreq

end YcAgent.Capture.Boomi
