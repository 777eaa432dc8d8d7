import YcAgent.Base.Loop
import YcAgent.Config.Options

/-!
# The execution records of Boomi

The records come in pages: the first request holds a filter, and every other one is the
query token of the page before. The loop goes on until it has ten thousand records, or as
many as the last page says there are.

What is not in the repository is a parameter: `post` answers a request, behind those that
were made before, `unmarshal` is `json.Unmarshal` at the type of a page, and `times n` is
`getStartAndEndTime` at the `n`-th request. The loop hands the records on as they are, so
`R` is any type.
-/
namespace YcAgent.Capture.Boomi

open Go

/-- A `POST` request. -/
structure Request where
  url : GoString
  basicAuth : GoString × GoString
  header : GoString × GoString
  body : GoString

structure Response where
  statusCode : Int
  body : GoString

/-- `BoomiExecutionRecordQueryResult`. -/
structure QueryResult (R : Type*) where
  result : List R
  queryToken : GoString
  numberOfResults : Int

/-- The text of the filter template at its data. -/
def filter (startTimeStr endTimeStr atomId : GoString) : GoString :=
  str "\x7b\n\t\t   \"QueryFilter\": \x7b\n\t\t\t\t\t\"expression\": \x7b\n" ++
    str "\t\t\t\t\t\t\t\"operator\": \"and\",\n\t\t\t\t\t\t\t\"nestedExpression\": [\n" ++
    str "\t\t\t\t\t\t\t\t\x7b\n\t\t\t\t\t\t\t\t\t\"operator\": \"BETWEEN\",\n" ++
    str "                    \t\t\t\t\"property\": \"executionTime\",\n" ++
    str "                    \t\t\t\t\"argument\": [\"" ++ startTimeStr ++ str "\", \"" ++
    endTimeStr ++
    str "\"]\n\t\t\t\t\t\t\t\t\x7d,\n\t\t\t\t\t\t\t\t\x7b\n" ++
    str "                     \t\t\t   \"argument\" : [\"" ++ atomId ++
    str "\"],\n                        \t\t\t\"operator\":\"EQUALS\",\n" ++
    str "                        \t\t\t\"property\":\"atomId\"\n" ++
    str "                    \t\t\t\x7d\n\t\t\t\t\t\t\t]\n\t\t\t\t\t\x7d\n\t\t\t\x7d\n" ++
    str "\t\t\x7d"

def makeBoomiRequest (o : Options) (times : Nat → GoString × GoString)
    (queryToken username password boomiURL : GoString) : Request :=
  let atomId : GoString := o .atomId
  let hours : Nat := o .period
  let period := if hours = 0 then 3 else hours
  let result := if atomId ≠ [] then filter (times period).1 (times period).2 atomId else []
  if queryToken = [] then
    ⟨boomiURL, (username, password), (str "Accept", str "application/json"), result⟩
  else
    ⟨boomiURL ++ str "More", (username, password),
      (str "Content-Type", str "application/json"), queryToken⟩

section Fetch

variable {R : Type*}

/-- The variables of the loop, and the requests that it made. -/
structure Fetching (R : Type*) where
  records : List R
  totalRecordCount : Nat
  queryToken : GoString
  requests : List Request

structure Fetched (R : Type*) where
  records : List R
  err : Option GoString
  requests : List Request

/-- The loop over one page, and whether it stopped. -/
def addPage (stop : Nat → Bool) (records : List R) (totalRecordCount : Nat) :
    List R → List R × Nat × Bool
  | [] => (records, totalRecordCount, false)
  | record :: result =>
    let records := records ++ [record]
    let totalRecordCount := totalRecordCount + 1
    if stop totalRecordCount then (records, totalRecordCount, true)
    else addPage stop records totalRecordCount result

/-- One page, from its response. -/
def pageTurn (stop : Int → Nat → Bool) (q : QueryResult R) (s : Fetching R) :
    Fetched R ⊕ Fetching R :=
  match addPage (stop q.numberOfResults) s.records s.totalRecordCount q.result with
  | (records, _, true) => .inl ⟨records, none, s.requests⟩
  | (records, totalRecordCount, false) => .inr ⟨records, totalRecordCount, q.queryToken, s.requests⟩

variable (o : Options) (times : Nat → Nat → GoString × GoString)
  (post : List Request → Request → Except GoString Response)
  (unmarshal : GoString → Except GoString (QueryResult R))
  (boomiUserName boomiPassword boomiURL : GoString)

def stopped (numberOfResults : Int) (totalRecordCount : Nat) : Bool :=
  decide (10000 ≤ totalRecordCount ∨ numberOfResults ≤ totalRecordCount)

/-- One turn of the loop. -/
def fetchTurn (s : Fetching R) : Fetched R ⊕ Fetching R :=
  let req := makeBoomiRequest o (times s.requests.length) s.queryToken boomiUserName
    boomiPassword boomiURL
  let requests := s.requests ++ [req]
  match post s.requests req with
  | .error e => .inl ⟨s.records, some (str "Failed to make Boomi request: " ++ e), requests⟩
  | .ok resp =>
    if resp.statusCode ≠ 200 then .inl ⟨s.records, none, requests⟩
    else
      match unmarshal resp.body with
      | .error e =>
        .inl ⟨s.records, some (str "Error unmarshalling Boomi response as JSON: " ++ e), requests⟩
      | .ok q =>
        if q.result.length ≤ 0 then .inl ⟨s.records, none, requests⟩
        else pageTurn stopped q { s with requests := requests }

/-- `fetchBoomiExecutionRecords`, where at most `fuel` requests are enough. -/
def fetchBoomiExecutionRecords (fuel : Nat) : Option (Fetched R) :=
  Loop.run (fetchTurn o times post unmarshal boomiUserName boomiPassword boomiURL) fuel
    ⟨[], 0, [], []⟩

end Fetch

/-! ## A consistent server -/

section Serve

variable {R : Type*}

/-- A page, and the token that asks for it: none for the first. -/
structure Page (R : Type*) where
  token : GoString
  result : List R

def Asks (boomiURL token : GoString) (req : Request) : Prop :=
  if token = [] then req.url = boomiURL
  else req.url = boomiURL ++ str "More" ∧ req.body = token

instance (boomiURL token : GoString) : DecidablePred (Asks boomiURL token) :=
  fun _ => inferInstanceAs (Decidable (ite _ _ _))

/-- The records of a server. -/
def held (pages : List (Page R)) : List R := pages.flatMap Page.result

/-- A server answers every request for a page with it: the records, how many there are over
all, and the token of the next page. -/
structure Serves (post : List Request → Request → Except GoString Response)
    (unmarshal : GoString → Except GoString (QueryResult R)) (boomiURL : GoString)
    (pages : List (Page R)) : Prop where
  first : pages.head?.map Page.token = some []
  distinct : (pages.map Page.token).Nodup
  nonempty : ∀ page ∈ pages, page.result ≠ []
  answers : ∀ (i : Nat) (page : Page R), pages[i]? = some page →
    ∀ past req, Asks boomiURL page.token req →
      ∃ resp q, post past req = .ok resp ∧ resp.statusCode = 200 ∧
        unmarshal resp.body = .ok q ∧ q.result = page.result ∧
        q.numberOfResults = (held pages).length ∧
        ∀ next, pages[i + 1]? = some next → q.queryToken = next.token

theorem addPage_eq (limit : Nat) (records : List R) (totalRecordCount : Nat) (result : List R) :
    addPage (fun t => decide (limit ≤ t)) records totalRecordCount result =
      if result.length < max 1 (limit - totalRecordCount) then
        (records ++ result, totalRecordCount + result.length, false)
      else
        (records ++ result.take (max 1 (limit - totalRecordCount)),
          totalRecordCount + max 1 (limit - totalRecordCount), true) := by
  induction result generalizing records totalRecordCount with
  | nil =>
    rw [if_pos (by rw [List.length_nil]; omega), List.append_nil]
    rfl
  | cons record result ih =>
    unfold addPage
    dsimp only
    by_cases hstop : limit ≤ totalRecordCount + 1
    · have hk : max 1 (limit - totalRecordCount) = 1 := by omega
      rw [if_pos (decide_eq_true hstop), hk, if_neg (by rw [List.length_cons]; omega)]
      rfl
    · have hk : max 1 (limit - totalRecordCount) = max 1 (limit - (totalRecordCount + 1)) + 1 := by
        omega
      rw [if_neg (by simpa using hstop), ih, hk]
      simp only [List.length_cons, Nat.add_lt_add_iff_right, List.take_succ_cons,
        List.append_assoc, List.singleton_append, Nat.add_assoc, Nat.add_comm 1]

theorem held_append (pages pages' : List (Page R)) :
    held (pages ++ pages') = held pages ++ held pages' :=
  List.flatMap_append

theorem held_snoc (pages : List (Page R)) (page : Page R) :
    held (pages ++ [page]) = held pages ++ page.result := by
  simp only [held, List.flatMap_append, List.flatMap_singleton]

theorem page_at {pages done rest : List (Page R)} {page : Page R}
    (h : pages = done ++ page :: rest) : pages[done.length]? = some page := by
  rw [h, List.getElem?_append_right (Nat.le_refl _), Nat.sub_self]
  rfl

theorem held_split {pages done rest : List (Page R)} {page : Page R}
    (h : pages = done ++ page :: rest) :
    held pages = held done ++ (page.result ++ held rest) := by
  rw [h, held_append]
  rfl

theorem stopped_eq (numberOfResults : Int) :
    stopped numberOfResults = fun t => decide (min 10000 numberOfResults.toNat ≤ t) := by
  funext t
  refine decide_eq_decide.mpr ?_
  omega

/-- The token that a request asks with. -/
def askedToken (boomiURL : GoString) (req : Request) : GoString :=
  if req.url = boomiURL then [] else req.body

theorem more_ne (boomiURL : GoString) : boomiURL ++ str "More" ≠ boomiURL := by
  intro h
  have hnil : str "More" = [] := List.append_right_eq_self.mp h
  revert hnil
  decide

theorem askedToken_of_asks {boomiURL token : GoString} {req : Request}
    (h : Asks boomiURL token req) : askedToken boomiURL req = token := by
  unfold Asks at h
  unfold askedToken
  split at h
  · rename_i htoken
    rw [if_pos h, htoken]
  · rw [h.1, if_neg (more_ne boomiURL), h.2]

theorem asks_makeBoomiRequest (o : Options) (times : Nat → GoString × GoString)
    (queryToken username password boomiURL : GoString) :
    Asks boomiURL queryToken
      (makeBoomiRequest o times queryToken username password boomiURL) := by
  unfold Asks makeBoomiRequest
  dsimp only
  split
  · rfl
  · exact ⟨rfl, rfl⟩

/-- Before the request for `page`, behind all of the pages in `done`. -/
structure Reached (boomiURL : GoString) (pages done : List (Page R)) (page : Page R)
    (rest : List (Page R)) (s : Fetching R) : Prop where
  split : pages = done ++ page :: rest
  token : s.queryToken = page.token
  records : s.records = held done
  count : s.totalRecordCount = (held done).length
  below : (held done).length < min 10000 (held pages).length
  asked : s.requests.map (askedToken boomiURL) = done.map Page.token

/-- The records that are due, from requests for different pages. -/
structure Complete (boomiURL : GoString) (pages : List (Page R)) (r : Fetched R) : Prop where
  records : r.records = (held pages).take 10000
  err : r.err = none
  asked : r.requests.map (askedToken boomiURL) <+: pages.map Page.token

variable {o : Options} {times : Nat → Nat → GoString × GoString}
  {post : List Request → Request → Except GoString Response}
  {unmarshal : GoString → Except GoString (QueryResult R)}
  {boomiUserName boomiPassword boomiURL : GoString} {pages done rest : List (Page R)}
  {page : Page R} {s : Fetching R}

/-- How many records of a page are taken before the loop stops in it. -/
def room (q : QueryResult R) (s : Fetching R) : Nat :=
  max 1 (min 10000 q.numberOfResults.toNat - s.totalRecordCount)

theorem pageTurn_stopped (q : QueryResult R) (s : Fetching R) :
    pageTurn stopped q s =
      if q.result.length < room q s then
        .inr ⟨s.records ++ q.result, s.totalRecordCount + q.result.length, q.queryToken,
          s.requests⟩
      else .inl ⟨s.records ++ q.result.take (room q s), none, s.requests⟩ := by
  unfold pageTurn room
  rw [stopped_eq, addPage_eq]
  by_cases hlt : q.result.length < max 1 (min 10000 q.numberOfResults.toNat - s.totalRecordCount)
  · simp only [if_pos hlt]
  · simp only [if_neg hlt]

theorem fetchTurn_answered {req : Request} {resp : Response} {q : QueryResult R}
    (hreq : makeBoomiRequest o (times s.requests.length) s.queryToken boomiUserName boomiPassword
      boomiURL = req)
    (hpost : post s.requests req = .ok resp) (hstatus : resp.statusCode = 200)
    (hbody : unmarshal resp.body = .ok q) (hresult : q.result ≠ []) :
    fetchTurn o times post unmarshal boomiUserName boomiPassword boomiURL s =
      pageTurn stopped q { s with requests := s.requests ++ [req] } := by
  have hlength : ¬q.result.length ≤ 0 := Nat.not_le.mpr (List.length_pos_iff.mpr hresult)
  unfold fetchTurn
  simp only [hreq, hpost, hstatus, hbody, ne_eq, not_true_eq_false, if_false, hlength]

theorem Reached.asked_snoc (h : Reached boomiURL pages done page rest s) {req : Request}
    (hasks : Asks boomiURL page.token req) :
    (s.requests ++ [req]).map (askedToken boomiURL) = (done ++ [page]).map Page.token := by
  rw [List.map_append, h.asked, List.map_singleton, askedToken_of_asks hasks, List.map_append,
    List.map_singleton]

/-- A page that fits is taken whole, and is not the last one. -/
theorem Reached.next (h : Reached boomiURL pages done page rest s) {req : Request}
    (hasks : Asks boomiURL page.token req) {queryToken : GoString}
    (htoken : ∀ next, pages[done.length + 1]? = some next → queryToken = next.token)
    (hlt : page.result.length < min 10000 (held pages).length - (held done).length) :
    ∃ next rest', Reached boomiURL pages (done ++ [page]) next rest'
      ⟨s.records ++ page.result, s.totalRecordCount + page.result.length, queryToken,
        s.requests ++ [req]⟩ := by
  have hlength := congrArg List.length (held_split h.split)
  rw [List.length_append, List.length_append] at hlength
  cases rest with
  | nil =>
    have hnil : (held ([] : List (Page R))).length = 0 := rfl
    omega
  | cons next rest' =>
    have hnext : pages[done.length + 1]? = some next := by
      rw [h.split, List.getElem?_append_right (Nat.le_add_right _ 1), Nat.add_sub_cancel_left]
      rfl
    refine ⟨next, rest', ?_, htoken next hnext, ?_, ?_, ?_, h.asked_snoc hasks⟩
    · rw [h.split, List.append_assoc]
      rfl
    · rw [held_snoc, h.records]
    · rw [held_snoc, List.length_append, h.count]
    · rw [held_snoc, List.length_append]
      omega

/-- With the part of a page that fits the records are complete. -/
theorem Reached.complete (h : Reached boomiURL pages done page rest s) {req : Request}
    (hasks : Asks boomiURL page.token req)
    (hle : min 10000 (held pages).length - (held done).length ≤ page.result.length) :
    Complete boomiURL pages
      ⟨s.records ++ page.result.take (min 10000 (held pages).length - (held done).length), none,
        s.requests ++ [req]⟩ where
  records := by
    have hbelow := h.below
    calc s.records ++ page.result.take (min 10000 (held pages).length - (held done).length)
        = held done ++ (page.result ++ held rest).take
            (min 10000 (held pages).length - (held done).length) := by
          rw [h.records, List.take_append_of_le_length hle]
      _ = (held pages).take (min 10000 (held pages).length) := by
          have hsum : min 10000 (held pages).length = (held done).length +
              (min 10000 (held pages).length - (held done).length) := by omega
          conv_rhs => rw [hsum, held_split h.split]
          rw [List.take_length_add_append, ← held_split h.split]
      _ = (held pages).take 10000 := List.take_eq_take_min.symm
  err := rfl
  asked := by
    rw [h.asked_snoc hasks, h.split]
    exact ⟨rest.map Page.token, by simp⟩

/-- What a turn makes of a page: it stops in the middle of it, or takes all of it. -/
theorem fetchTurn_reached (hserve : Serves post unmarshal boomiURL pages)
    (h : Reached boomiURL pages done page rest s) :
    (∃ r, fetchTurn o times post unmarshal boomiUserName boomiPassword boomiURL s = .inl r ∧
      Complete boomiURL pages r) ∨
    ∃ t next rest',
      fetchTurn o times post unmarshal boomiUserName boomiPassword boomiURL s = .inr t ∧
      Reached boomiURL pages (done ++ [page]) next rest' t := by
  obtain ⟨req, hreq⟩ : ∃ req, makeBoomiRequest o (times s.requests.length) s.queryToken
      boomiUserName boomiPassword boomiURL = req := ⟨_, rfl⟩
  have hasks : Asks boomiURL page.token req := by
    rw [← hreq, ← h.token]
    exact asks_makeBoomiRequest ..
  obtain ⟨resp, q, hpost, hstatus, hbody, hresult, hnumber, htoken⟩ :=
    hserve.answers done.length page (page_at h.split) s.requests req hasks
  have hnonempty := hserve.nonempty page (List.mem_of_getElem? (page_at h.split))
  rw [← hresult] at hnonempty
  have hbelow := h.below
  have hroom : room q { s with requests := s.requests ++ [req] } =
      min 10000 (held pages).length - (held done).length := by
    rw [room, hnumber, h.count, Int.toNat_natCast]
    omega
  rw [fetchTurn_answered hreq hpost hstatus hbody hnonempty, pageTurn_stopped, hroom, hresult]
  by_cases hlt : page.result.length < min 10000 (held pages).length - (held done).length
  · right
    rw [if_pos hlt]
    obtain ⟨next, rest', hreached⟩ := h.next hasks htoken hlt
    exact ⟨_, next, rest', rfl, hreached⟩
  · left
    rw [if_neg hlt]
    exact ⟨_, rfl, h.complete hasks (Nat.not_lt.mp hlt)⟩

/-- Before the first request, for the page without a token. -/
theorem reached_start (hserve : Serves post unmarshal boomiURL pages) :
    ∃ page rest, Reached boomiURL pages [] page rest ⟨[], 0, [], []⟩ := by
  cases hpages : pages with
  | nil =>
    have hfirst := hserve.first
    rw [hpages] at hfirst
    cases hfirst
  | cons page rest =>
    have hfirst := hserve.first
    rw [hpages] at hfirst
    have hpage : 0 < page.result.length := by
      refine List.length_pos_iff.mpr (hserve.nonempty page ?_)
      rw [hpages]
      exact List.mem_cons_self
    refine ⟨page, rest, rfl, (Option.some.inj hfirst).symm, rfl, rfl, ?_, rfl⟩
    have hlength : (held (page :: rest)).length = page.result.length + (held rest).length :=
      List.length_append
    have hnil : (held ([] : List (Page R))).length = 0 := rfl
    omega

theorem fetch_complete (hserve : Serves post unmarshal boomiURL pages) :
    ∃ fuel fetched, fetchBoomiExecutionRecords o times post unmarshal boomiUserName boomiPassword
        boomiURL fuel = some fetched ∧ Complete boomiURL pages fetched := by
  obtain ⟨page, rest, hstart⟩ := reached_start hserve
  have hturn : ∀ s : Fetching R, (∃ done page rest, Reached boomiURL pages done page rest s) →
      (∃ r, fetchTurn o times post unmarshal boomiUserName boomiPassword boomiURL s = .inl r ∧
        Complete boomiURL pages r) ∨
      ∃ t, fetchTurn o times post unmarshal boomiUserName boomiPassword boomiURL s = .inr t ∧
        (∃ done page rest, Reached boomiURL pages done page rest t) ∧
        pages.length - t.requests.length < pages.length - s.requests.length := by
    intro s hs
    obtain ⟨done, page, rest, h⟩ := hs
    refine (fetchTurn_reached hserve h).imp_right fun hnext => ?_
    obtain ⟨t, next, rest', ht, hreached⟩ := hnext
    refine ⟨t, ht, ⟨_, _, _, hreached⟩, ?_⟩
    have hs := congrArg List.length h.asked
    have ht := congrArg List.length hreached.asked
    have hpages := congrArg List.length hreached.split
    simp only [List.length_map, List.length_append, List.length_cons, List.length_nil] at *
    omega
  obtain ⟨fetched, hrun, hcomplete⟩ := Loop.run_of_variant _ hturn ⟨[], page, rest, hstart⟩
  exact ⟨_, fetched, hrun, hcomplete⟩

/-- Requests for different pages are not for one page twice. -/
theorem Complete.countP_le {r : Fetched R} (h : Complete boomiURL pages r)
    (hserve : Serves post unmarshal boomiURL pages) (page : Page R) :
    r.requests.countP (Asks boomiURL page.token) ≤ 1 := by
  have hnodup := hserve.distinct.sublist h.asked.sublist
  calc r.requests.countP (Asks boomiURL page.token)
      ≤ r.requests.countP fun req => askedToken boomiURL req == page.token := by
        refine List.countP_mono_left fun req _ hasks => ?_
        exact beq_iff_eq.mpr (askedToken_of_asks (of_decide_eq_true hasks))
    _ = (r.requests.map (askedToken boomiURL)).count page.token := by
        rw [List.count, List.countP_map]
        rfl
    _ ≤ 1 := List.nodup_iff_count_le_one.mp hnodup page.token

/-- Against a consistent server the loop ends, with the first ten thousand records in their
order, and asks for no page twice. -/
theorem fetchBoomiExecutionRecords_serves (o : Options) (times : Nat → Nat → GoString × GoString)
    (post : List Request → Request → Except GoString Response)
    (unmarshal : GoString → Except GoString (QueryResult R))
    (boomiUserName boomiPassword boomiURL : GoString) (pages : List (Page R))
    (hserve : Serves post unmarshal boomiURL pages) :
    ∃ fetched,
      (∃ fuel, fetchBoomiExecutionRecords o times post unmarshal boomiUserName boomiPassword
        boomiURL fuel = some fetched) ∧
      (∀ fuel fetched', fetchBoomiExecutionRecords o times post unmarshal boomiUserName
        boomiPassword boomiURL fuel = some fetched' → fetched' = fetched) ∧
      fetched.records = (held pages).take 10000 ∧ fetched.err = none ∧
      ∀ page ∈ pages, fetched.requests.countP (Asks boomiURL page.token) ≤ 1 := by
  obtain ⟨fuel, fetched, hfetched, hcomplete⟩ := fetch_complete (o := o) hserve
  refine ⟨fetched, ⟨fuel, hfetched⟩, fun fuel' fetched' hfetched' => ?_, hcomplete.records,
    hcomplete.err, fun page _ => hcomplete.countP_le hserve page⟩
  exact Loop.Returns.unique ⟨fuel', hfetched'⟩ ⟨fuel, hfetched⟩

/-- A server with two pages, of two records and of one. -/
def twoPages : List (Page GoString) :=
  [⟨[], [str "execution-1", str "execution-2"]⟩, ⟨str "token-2", [str "execution-3"]⟩]

/-- Its responses, which hold no more of a record than its id. -/
def firstPage : GoString :=
  str "\x7b\"result\":[\x7b\"executionId\":\"execution-1\"\x7d," ++
    str "\x7b\"executionId\":\"execution-2\"\x7d]," ++
    str "\"queryToken\":\"token-2\",\"numberOfResults\":3\x7d"

def secondPage : GoString :=
  str "\x7b\"result\":[\x7b\"executionId\":\"execution-3\"\x7d],\"numberOfResults\":3\x7d"

def postTwoPages (boomiURL : GoString) (_ : List Request) (req : Request) :
    Except GoString Response :=
  if req.url = boomiURL then .ok ⟨200, firstPage⟩
  else if req.url = boomiURL ++ str "More" ∧ req.body = str "token-2" then .ok ⟨200, secondPage⟩
  else .ok ⟨400, []⟩

def unmarshalTwoPages (body : GoString) : Except GoString (QueryResult GoString) :=
  if body = firstPage then .ok ⟨[str "execution-1", str "execution-2"], str "token-2", 3⟩
  else if body = secondPage then .ok ⟨[str "execution-3"], [], 3⟩
  else .error (str "unexpected end of JSON input")

theorem serves_twoPages (boomiURL : GoString) :
    Serves (postTwoPages boomiURL) unmarshalTwoPages boomiURL twoPages := by
  refine ⟨rfl, by decide, by decide, fun i page hpage past req hasks => ?_⟩
  match i, hpage with
  | 0, hpage =>
    cases hpage
    refine ⟨⟨200, firstPage⟩, ⟨[str "execution-1", str "execution-2"], str "token-2", 3⟩,
      ?_, rfl, ?_, rfl, rfl, fun next hnext => ?_⟩
    · exact if_pos hasks
    · exact if_pos rfl
    · cases hnext
      rfl
  | 1, hpage =>
    cases hpage
    have hmore : req.url = boomiURL ++ str "More" ∧ req.body = str "token-2" := hasks
    have hfirst : secondPage ≠ firstPage := by decide
    refine ⟨⟨200, secondPage⟩, ⟨[str "execution-3"], [], 3⟩, ?_, rfl, ?_, rfl, rfl, ?_⟩
    · rw [postTwoPages, hmore.1, if_neg (more_ne boomiURL), if_pos ⟨rfl, hmore.2⟩]
    · rw [unmarshalTwoPages, if_neg hfirst, if_pos rfl]
    · intro next hnext
      cases hnext
  | i + 2, hpage => cases hpage

theorem fetchBoomiExecutionRecords_twoPages :
    ∃ fetched,
      (∃ fuel, fetchBoomiExecutionRecords defaultOptions (fun _ _ => ([], []))
        (postTwoPages (str "https://host/query")) unmarshalTwoPages (str "user") (str "password")
        (str "https://host/query") fuel = some fetched) ∧
      fetched.records = [str "execution-1", str "execution-2", str "execution-3"] := by
  obtain ⟨fetched, hfetched, -, hrecords, -⟩ :=
    fetchBoomiExecutionRecords_serves defaultOptions (fun _ _ => ([], []))
      (postTwoPages (str "https://host/query")) unmarshalTwoPages (str "user") (str "password")
      (str "https://host/query") twoPages (serves_twoPages (str "https://host/query"))
  refine ⟨fetched, hfetched, hrecords.trans ?_⟩
  rfl

end Serve

end YcAgent.Capture.Boomi
