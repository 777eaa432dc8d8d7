import YcAgent.Base.ResponseWriter
import YcAgent.Base.Utf8
import YcAgent.Api.Action

/-!
# Forwarding a request

`handleYcrashForward` sends the request on and copies the answer to the client. The tail
of `Action` is shared by all requests: it encodes the response of the agent itself, behind
whatever was written before. Redirects are followed by `client.Do`, so the answer is the one
behind them.
-/
namespace YcAgent.Api

open Go

/-! ## Encoding a response -/

/-- The runes of a string, a byte that starts none by itself. -/
def splitRunes : Nat → GoString → List GoString
  | 0, _ => []
  | _ + 1, [] => []
  | fuel + 1, s => s.take (runeLen s) :: splitRunes fuel (s.drop (runeLen s))

def hexDigit (n : Nat) : Byte := (str "0123456789abcdef").getD n 0

/-- The text of a rune in a JSON string, without the escapes for HTML. -/
def escapeRune : GoString → GoString
  | [b] =>
    if b = 0x22 ∨ b = 0x5C then [0x5C, b]
    else if b = 0x08 then str "\\b"
    else if b = 0x0C then str "\\f"
    else if b = newline then str "\\n"
    else if b = carriageReturn then str "\\r"
    else if b = 0x09 then str "\\t"
    else if b < 0x20 then str "\\u00" ++ [hexDigit (b.toNat / 16), hexDigit (b.toNat % 16)]
    else if b < 0x80 then [b]
    else str "\\ufffd"
  | rune =>
    if rune = [0xE2, 0x80, 0xA8] then str "\\u2028"
    else if rune = [0xE2, 0x80, 0xA9] then str "\\u2029"
    else rune

def quote (s : GoString) : GoString :=
  str "\"" ++ (splitRunes s.length s).flatMap escapeRune ++ str "\""

def encodeStrings (ss : List GoString) : GoString :=
  str "[" ++ join (ss.map quote) (str ",") ++ str "]"

/-- What `encoder.Encode(resp)` writes: one line, and the empty lists left out. -/
def encode (resp : ActionResponse) : GoString :=
  str "\x7b\"Code\":" ++ itoa resp.code ++ str ",\"Msg\":" ++ quote resp.msg ++
    (if resp.dashboardReportURLs = [] then []
      else str ",\"DashboardReportURLs\":" ++ encodeStrings resp.dashboardReportURLs) ++
    (if resp.output = [] then []
      else str ",\"Output\":[" ++ join (resp.output.map encodeStrings) (str ",") ++ str "]") ++
    str "\x7d\n"

theorem encode_ne_nil (resp : ActionResponse) : encode resp ≠ [] :=
  List.append_ne_nil_of_right_ne_nil _ (by decide)

/-! ## The two halves of `Action` -/

def locationKey : GoString := str "Location"

/-- The answers that `client.Do` goes on from. A request with a body, which cannot be sent again,
stays at those that ask for the same request. -/
def redirects (noBody : Bool) (status : Nat) (header : Header) : Bool :=
  (status ∈ [301, 302, 303] || noBody && status ∈ [307, 308]) && header.get locationKey ≠ []

/-- The answer of the upstream server, as `client.Do` returns it. `chunks` is how its body reads,
up to the end or to an error. -/
structure Upstream (isHead noBody : Bool) where
  statusCode : Nat
  header : RangeMap GoString (List GoString)
  chunks : List GoString
  readErr : Option GoString
  /-- Informational answers are passed over. -/
  status : 100 ≤ statusCode → statusCode ≤ 199 → statusCode = 101
  final : redirects noBody statusCode (valuesOf header.entries) = false
  /-- The client takes this field out of the header. -/
  unframed : valuesOf header.entries transferEncodingKey = []
  bodyless : isHead = true → chunks = [] ∧ readErr = none

structure HttpRequest where
  isHead : Bool
  noBody : Bool
  forward : GoString
  /-- The decoded body, or the error of decoding it. -/
  decoded : Except GoString ActionRequest

/-- How the call of `client.Do` ends. -/
inductive Outcome (isHead noBody : Bool) where
  | badURL (err : GoString)
  | failed (err : GoString)
  | answer (r : Upstream isHead noBody)

section Action

variable (headerOrder : RangeOrder GoString (List GoString))

/-- None is the panic of `WriteHeader`. -/
def handleYcrashForward {isHead noBody : Bool} (w : ResponseWriter)
    (outcome : Outcome isHead noBody) (resp : ActionResponse) :
    Option (ResponseWriter × ActionResponse) :=
  match outcome with
  | .badURL err => some (w, { resp with code := -1, msg := err })
  | .failed err => some (w, { resp with code := -2, msg := err })
  | .answer r =>
    ((w.addAll (headerOrder.visit r.header.entries)).writeHeader r.statusCode).map fun w =>
      match w.copy r.readErr r.chunks with
      | (w, none) => (w, resp)
      | (w, some err) => (w, { resp with code := -1, msg := err })

variable (o : Options) (table : Nat → ProcessTable) (isProcessExists : Int → Bool) (s : Server)
  (order : RangeOrder Entry ProcessPidsResult)

/-- What `Action` leaves in the writer; none when a panic ends the request. -/
def action (request : HttpRequest) (outcome : Outcome request.isHead request.noBody) :
    Option ResponseWriter :=
  let w := ResponseWriter.new request.isHead
  let handled :=
    if request.forward ≠ [] then handleYcrashForward headerOrder w outcome ActionResponse.new
    else match request.decoded with
      | .error err => some (w, .failed err)
      | .ok req =>
        (handleActionAPI o table isProcessExists s order req).resp.map fun resp => (w, resp)
  handled.map fun (w, resp) => (w.write (encode resp)).1

end Action

/-! ## What the client gets -/

section Upstream

variable {isHead noBody : Bool}

/-- The agent's own response, behind the one it forwards. -/
def Upstream.tail (r : Upstream isHead noBody) : GoString :=
  match r.readErr with
  | none => encode ActionResponse.new
  | some err => encode { ActionResponse.new with code := -1, msg := err }

theorem Upstream.tail_ne_nil (r : Upstream isHead noBody) : r.tail ≠ [] := by
  unfold Upstream.tail
  split
  · exact encode_ne_nil _
  · exact encode_ne_nil _

/-- The header of the answer. -/
def Upstream.fields (r : Upstream isHead noBody) : Header := valuesOf r.header.entries

/-- The client is sent the status, the header and the body of the answer, and no more. -/
def Transparent (r : Upstream isHead noBody) (w : Option ResponseWriter) : Prop :=
  ∃ w', w = some w' ∧ w'.sent = some (r.statusCode, r.fields) ∧ w'.added = [] ∧
    w'.body = r.chunks.flatten

/-- The server does not have to find out the type of the body. -/
def Upstream.Typed (r : Upstream isHead noBody) : Prop :=
  r.fields contentTypeKey ≠ [] ∨ r.fields.get contentEncodingKey ≠ []

/-- The body keeps to the declared length, which leaves no room for the agent's own response. -/
def Upstream.Filled (r : Upstream isHead noBody) : Prop :=
  ∃ n, r.fields.contentLength = some n ∧ r.chunks.flatten.length ≤ n ∧
    n < r.chunks.flatten.length + r.tail.length

/-- Every field of the answer goes to the client, none is added, and the agent's own response
gets nowhere. -/
structure Carried (r : Upstream isHead noBody) : Prop where
  status : 100 ≤ r.statusCode ∧ r.statusCode ≤ 999
  kept : ∀ key, KeptBack r.statusCode key → r.fields key = []
  dated : r.fields dateKey ≠ []
  quiet : (bodyAllowedForStatus r.statusCode = false ∧ r.chunks.flatten = []) ∨
    (r.Filled ∧ (r.chunks.flatten = [] ∨ r.Typed)) ∨
    (isHead = true ∧ r.fields contentLengthKey ≠ [] ∧ r.Typed)

/-- The writer behind `WriteHeader`. -/
def forwarding (r : Upstream isHead noBody) : ResponseWriter where
  isHead := isHead
  header := r.fields
  sent := some (r.statusCode, r.fields.passed r.statusCode)
  written := 0
  accepted := []

/-- The writer behind the body. -/
def forwarded (r : Upstream isHead noBody) : ResponseWriter :=
  { forwarding r with written := r.chunks.flatten.length, accepted := r.chunks.flatten }

/-- The writer behind the agent's own response, where that is accepted. -/
def tailed (r : Upstream isHead noBody) : ResponseWriter :=
  { forwarding r with
    written := r.chunks.flatten.length + r.tail.length
    accepted := r.chunks.flatten ++ r.tail }

theorem passed_eq_iff (h : Header) (status : Nat) :
    h.passed status = h ↔ ∀ key, KeptBack status key → h key = [] := by
  constructor
  · intro heq key hkey
    rw [← heq]
    exact if_pos hkey
  · intro hkept
    funext key
    unfold Header.passed
    split
    · rename_i hkey
      exact (hkept key hkey).symm
    · rfl

theorem contentLength_passed {status : Nat} (hbody : bodyAllowedForStatus status = true)
    (h : Header) : (h.passed status).contentLength = h.contentLength := by
  rw [Header.contentLength, Header.passed_of_valid hbody (by decide)]
  rfl

end Upstream

section Transparent

variable {headerOrder : RangeOrder GoString (List GoString)} {o : Options}
  {table : Nat → ProcessTable} {isProcessExists : Int → Bool} {s : Server}
  {order : RangeOrder Entry ProcessPidsResult} {isHead noBody : Bool}

theorem writeHeader_addAll (r : Upstream isHead noBody) :
    ((ResponseWriter.new isHead).addAll (headerOrder.visit r.header.entries)).writeHeader
      r.statusCode = if r.statusCode < 100 ∨ 999 < r.statusCode then none
        else some (forwarding r) := by
  have hvalues : valuesOf (headerOrder.visit r.header.entries) = r.fields := by
    have hperm := headerOrder.perm r.header.entries
    exact (valuesOf_perm hperm.symm r.header.nodupKeys).symm
  have hheader : (fun key => (ResponseWriter.new isHead).header key ++
      valuesOf (headerOrder.visit r.header.entries) key) = r.fields := by
    rw [hvalues]
    rfl
  rw [ResponseWriter.addAll_eq, hheader, ResponseWriter.writeHeader]
  by_cases hcode : r.statusCode < 100 ∨ 999 < r.statusCode
  · rw [if_neg (by exact Bool.noConfusion), if_pos hcode, if_pos hcode]
  · rw [if_neg (by exact Bool.noConfusion), if_neg hcode, if_neg, if_neg hcode]
    · rfl
    · intro ⟨hinfo, hne⟩
      apply hne
      apply r.status _ hinfo
      omega

/-- A forwarded request writes the tail behind the copied body. -/
theorem action_forward {request : HttpRequest} (hforward : request.forward ≠ [])
    (r : Upstream request.isHead request.noBody) :
    action headerOrder o table isProcessExists s order request (.answer r) =
      if r.statusCode < 100 ∨ 999 < r.statusCode then none
      else some (((forwarding r).copy r.readErr r.chunks).1.write
        (match ((forwarding r).copy r.readErr r.chunks).2 with
          | none => encode ActionResponse.new
          | some err => encode { ActionResponse.new with code := -1, msg := err })).1 := by
  unfold action
  simp only [if_pos hforward, handleYcrashForward, writeHeader_addAll]
  by_cases hcode : r.statusCode < 100 ∨ 999 < r.statusCode
  · rw [if_pos hcode, if_pos hcode]
    rfl
  · simp only [if_neg hcode, Option.map_some]
    rcases hcopy : (forwarding r).copy r.readErr r.chunks with ⟨w, err⟩
    cases err with
    | none => rfl
    | some err => rfl

theorem sent_eq_iff {r : Upstream isHead noBody} {w : ResponseWriter}
    (hsent : w.sent = some (r.statusCode, r.fields.passed r.statusCode)) :
    w.sent = some (r.statusCode, r.fields) ↔
      ∀ key, KeptBack r.statusCode key → r.fields key = [] := by
  rw [hsent, Option.some.injEq, Prod.mk.injEq, and_iff_right rfl]
  exact passed_eq_iff r.fields r.statusCode

theorem flatten_of_isHead (r : Upstream isHead noBody) (hhead : isHead = true) :
    r.chunks.flatten = [] := by
  rw [(r.bodyless hhead).1]
  rfl

/-- Where the status has no body everything behind it is refused. -/
theorem transparent_bodyless {r : Upstream isHead noBody}
    (hcode : 100 ≤ r.statusCode ∧ r.statusCode ≤ 999)
    (hbody : bodyAllowedForStatus r.statusCode = false) (data : GoString) :
    Transparent r (some ((forwarding r).copy r.readErr r.chunks |>.1.write data).1) ↔
      Carried r := by
  rw [ResponseWriter.copy_bodyless rfl hbody, ResponseWriter.write_bodyless rfl hbody]
  have hnothing : (forwarding r).body = [] := ite_self []
  have hadded := ResponseWriter.added_of_nothing (w := forwarding r) rfl (Or.inl hbody)
  have hsent := sent_eq_iff (w := forwarding r) rfl
  constructor
  · rintro ⟨w, hw, hsame, hnone, hcopied⟩
    obtain rfl := Option.some.inj hw
    have hkept := hsent.mp hsame
    have hdated := hadded.mp hnone
    rw [(passed_eq_iff _ _).mpr hkept] at hdated
    exact ⟨hcode, hkept, hdated, Or.inl ⟨hbody, hcopied.symm.trans hnothing⟩⟩
  · intro h
    refine ⟨_, rfl, hsent.mpr h.kept, hadded.mpr ?_, ?_⟩
    · rw [(passed_eq_iff _ _).mpr h.kept]
      exact h.dated
    · rcases h.quiet with ⟨-, hempty⟩ | ⟨hfilled, -⟩ | ⟨hhead, -⟩
      · exact hnothing.trans hempty.symm
      · obtain ⟨n, hn, -⟩ := hfilled
        rw [Header.contentLength, h.kept _ (keptBack_contentLength hbody)] at hn
        cases hn
      · exact hnothing.trans (flatten_of_isHead r hhead).symm

/-- The body keeps to the length that is declared, if one is. -/
def Upstream.Fits (r : Upstream isHead noBody) : Prop :=
  ∀ n ∈ r.fields.contentLength, r.chunks.flatten.length ≤ n

theorem copy_forwarding {r : Upstream isHead noBody}
    (hbody : bodyAllowedForStatus r.statusCode = true) (hfits : r.Fits) :
    (forwarding r).copy r.readErr r.chunks = (forwarded r, r.readErr) := by
  have hroom : ∀ n ∈ (r.fields.passed r.statusCode).contentLength,
      (forwarding r).written + r.chunks.flatten.length ≤ n := by
    intro n hn
    rw [contentLength_passed hbody] at hn
    show 0 + r.chunks.flatten.length ≤ n
    rw [Nat.zero_add]
    exact hfits n hn
  rw [ResponseWriter.copy_of_fits rfl hbody r.readErr hroom]
  simp [forwarding, forwarded]

/-- What is added behind a body that the server has accepted. -/
theorem added_iff {r : Upstream isHead noBody} (hbody : bodyAllowedForStatus r.statusCode = true)
    {w : ResponseWriter} (hsent : w.sent = some (r.statusCode, r.fields.passed r.statusCode)) :
    w.added = [] ↔ (w.accepted = [] ∨
      r.Typed ∧ (w.isHead = true → r.fields contentLengthKey ≠ [])) ∧ r.fields dateKey ≠ [] := by
  have hvalid (key : GoString) (hkey : validHeaderFieldName key = true) :
      r.fields.passed r.statusCode key = r.fields key :=
    Header.passed_of_valid hbody hkey r.fields
  have hencoding : (r.fields.passed r.statusCode).get contentEncodingKey =
      r.fields.get contentEncodingKey := by
    rw [Header.get, hvalid contentEncodingKey (by decide)]
    rfl
  have hdate := hvalid dateKey (by decide)
  by_cases haccepted : w.accepted = []
  · rw [ResponseWriter.added_of_nothing hsent (Or.inr haccepted), hdate]
    exact (and_iff_right (Or.inl haccepted)).symm
  · rw [ResponseWriter.added_of_body hsent hbody haccepted, hencoding, hdate,
      hvalid contentTypeKey (by decide), hvalid contentLengthKey (by decide),
      or_iff_right haccepted, ← and_assoc]
    rfl

/-- The agent's own response is refused. -/
theorem transparent_filled {r : Upstream isHead noBody}
    (hcode : 100 ≤ r.statusCode ∧ r.statusCode ≤ 999)
    (hbody : bodyAllowedForStatus r.statusCode = true) (hfilled : r.Filled) :
    Transparent r (some ((forwarded r).write r.tail).1) ↔ Carried r := by
  obtain ⟨n, hn, hfits, hbeyond⟩ := hfilled
  have hlength : (r.fields.passed r.statusCode).contentLength = some n := by
    rw [contentLength_passed hbody]
    exact hn
  obtain ⟨hsent, haccepted, hhead⟩ :=
    ResponseWriter.write_beyond (w := forwarded r) rfl hlength hbeyond
  generalize ((forwarded r).write r.tail).1 = w at hsent haccepted hhead
  have haccepted : w.accepted = r.chunks.flatten := haccepted
  have hsame := sent_eq_iff hsent
  have hadded := added_iff hbody hsent
  rw [haccepted] at hadded
  have hcopied : w.body = r.chunks.flatten := by
    unfold ResponseWriter.body
    split
    · rename_i hisHead
      exact (flatten_of_isHead r (hhead.symm.trans hisHead)).symm
    · exact haccepted
  constructor
  · rintro ⟨w', hw, hsent', hnone, -⟩
    obtain rfl := Option.some.inj hw
    obtain ⟨hquiet, hdated⟩ := hadded.mp hnone
    exact ⟨hcode, hsame.mp hsent', hdated,
      Or.inr (Or.inl ⟨⟨n, hn, hfits, hbeyond⟩, hquiet.imp_right And.left⟩)⟩
  · intro h
    have hlengthKey : r.fields contentLengthKey ≠ [] := by
      intro hnil
      rw [Header.contentLength, hnil] at hn
      cases hn
    refine ⟨w, rfl, hsame.mpr h.kept, hadded.mpr ⟨?_, h.dated⟩, hcopied⟩
    rcases h.quiet with ⟨hnobody, -⟩ | ⟨-, hquiet⟩ | ⟨-, -, htyped⟩
    · exact absurd (hbody.symm.trans hnobody) Bool.noConfusion
    · exact hquiet.imp_right fun htyped => ⟨htyped, fun _ => hlengthKey⟩
    · exact Or.inr ⟨htyped, fun _ => hlengthKey⟩

/-- The agent's own response is accepted, and is seen unless the request is a HEAD request. -/
theorem transparent_unfilled {r : Upstream isHead noBody}
    (hcode : 100 ≤ r.statusCode ∧ r.statusCode ≤ 999)
    (hbody : bodyAllowedForStatus r.statusCode = true) (hfits : r.Fits)
    (hunfilled : ¬ r.Filled) :
    Transparent r (some ((forwarded r).write r.tail).1) ↔ Carried r := by
  have hroom : ∀ n ∈ (r.fields.passed r.statusCode).contentLength,
      (forwarded r).written + r.tail.length ≤ n := by
    intro n hn
    rw [contentLength_passed hbody] at hn
    by_contra hbeyond
    exact hunfilled ⟨n, hn, hfits n hn, Nat.lt_of_not_le hbeyond⟩
  have hwrite : ((forwarded r).write r.tail).1 = tailed r :=
    congrArg Prod.fst (ResponseWriter.write_of_fits (w := forwarded r) rfl hbody hroom)
  rw [hwrite]
  have hsame := sent_eq_iff (w := tailed r) rfl
  have hne : (tailed r).accepted ≠ [] := List.append_ne_nil_of_right_ne_nil _ r.tail_ne_nil
  have hadded := added_iff hbody (w := tailed r) rfl
  rw [or_iff_right hne] at hadded
  constructor
  · rintro ⟨w, hw, hsent, hnone, hcopied⟩
    obtain rfl := Option.some.inj hw
    obtain ⟨⟨htyped, hlength⟩, hdated⟩ := hadded.mp hnone
    have hhead : isHead = true := by
      by_contra hhead
      have hseen : r.chunks.flatten ++ r.tail = r.chunks.flatten :=
        (if_neg hhead).symm.trans hcopied
      exact r.tail_ne_nil (List.append_right_eq_self.mp hseen)
    exact ⟨hcode, hsame.mp hsent, hdated, Or.inr (Or.inr ⟨hhead, hlength hhead, htyped⟩)⟩
  · intro h
    rcases h.quiet with ⟨hnobody, -⟩ | ⟨hfilled, -⟩ | ⟨hhead, hlength, htyped⟩
    · exact absurd (hbody.symm.trans hnobody) Bool.noConfusion
    · exact absurd hfilled hunfilled
    · refine ⟨_, rfl, hsame.mpr h.kept, hadded.mpr ⟨⟨htyped, fun _ => hlength⟩, h.dated⟩, ?_⟩
      rw [flatten_of_isHead r hhead]
      exact if_pos hhead

theorem transparent_fits {r : Upstream isHead noBody}
    (hcode : 100 ≤ r.statusCode ∧ r.statusCode ≤ 999)
    (hbody : bodyAllowedForStatus r.statusCode = true) (hfits : r.Fits) :
    Transparent r (some ((forwarded r).write r.tail).1) ↔ Carried r := by
  by_cases hfilled : r.Filled
  · exact transparent_filled hcode hbody hfilled
  · exact transparent_unfilled hcode hbody hfits hfilled

/-- A body that is longer than declared is cut off. -/
theorem transparent_beyond {r : Upstream isHead noBody}
    (hbody : bodyAllowedForStatus r.statusCode = true) (hbeyond : ¬ r.Fits) (data : GoString) :
    Transparent r (some ((forwarding r).copy r.readErr r.chunks |>.1.write data).1) ↔
      Carried r := by
  obtain ⟨n, hn, hlong⟩ : ∃ n, r.fields.contentLength = some n ∧
      n < r.chunks.flatten.length := by
    by_contra hno
    apply hbeyond
    intro n hn
    by_contra hlong
    exact hno ⟨n, hn, Nat.lt_of_not_le hlong⟩
  have hstart : (forwarding r).Within n := by
    refine ⟨⟨_, _, rfl, ?_⟩, Nat.le_refl 0, Nat.zero_le n⟩
    rw [contentLength_passed hbody]
    exact hn
  have hwithin := (hstart.copy r.readErr r.chunks).write data
  refine iff_of_false ?_ fun h => ?_
  · rintro ⟨w, hw, -, -, hcopied⟩
    obtain rfl := Option.some.inj hw
    have hlength := hwithin.body_length_le
    rw [hcopied] at hlength
    omega
  · rcases h.quiet with ⟨-, hempty⟩ | ⟨⟨m, hm, hle, -⟩, -⟩ | ⟨hhead, -⟩
    · rw [hempty] at hlong
      cases hlong
    · obtain rfl := Option.some.inj (hn.symm.trans hm)
      omega
    · rw [flatten_of_isHead r hhead] at hlong
      cases hlong

/-- Forwarding is transparent when the server changes no field of the answer, and the agent's own
response is refused or eaten without a trace. -/
theorem transparent_iff {request : HttpRequest} (hforward : request.forward ≠ [])
    (r : Upstream request.isHead request.noBody) :
    Transparent r (action headerOrder o table isProcessExists s order request (.answer r)) ↔
      Carried r := by
  rw [action_forward hforward]
  by_cases hcode : r.statusCode < 100 ∨ 999 < r.statusCode
  · rw [if_pos hcode]
    refine iff_of_false ?_ fun h => ?_
    · rintro ⟨w, hw, -⟩
      cases hw
    · have hstatus := h.status
      omega
  · rw [if_neg hcode]
    have hcode : 100 ≤ r.statusCode ∧ r.statusCode ≤ 999 := by omega
    cases hbody : bodyAllowedForStatus r.statusCode with
    | false => exact transparent_bodyless hcode hbody _
    | true =>
      by_cases hfits : r.Fits
      · rw [copy_forwarding hbody hfits]
        exact transparent_fits hcode hbody hfits
      · exact transparent_beyond hbody hfits _

end Transparent

/-- An answer of two bytes with status 200, with the given lines of its header. -/
def okAnswer (values : List (GoString × List GoString)) (hkeys : (values.map Prod.fst).Nodup)
    (hunframed : valuesOf values transferEncodingKey = []) : Upstream false true where
  statusCode := 200
  header := ⟨values, hkeys⟩
  chunks := [str "ok"]
  readErr := none
  status := by omega
  final := rfl
  unframed := hunframed
  bodyless := by decide

/-- The fields that a server of this kind sets by itself. -/
def ownFields : List (GoString × List GoString) :=
  [(dateKey, [str "Wed, 01 Jan 2025 00:00:00 GMT"]), (contentTypeKey, [str "text/plain"])]

def declaredAnswer : Upstream false true :=
  okAnswer ((contentLengthKey, [str "2"]) :: ownFields) (by decide) (by decide)

def chunkedAnswer : Upstream false true :=
  okAnswer ownFields (by decide) (by decide)

def forwardRequest : HttpRequest := ⟨false, true, str "http://localhost/action", .error []⟩

theorem carried_declaredAnswer : Carried declaredAnswer where
  status := by decide
  kept := by
    intro key hkey
    have hnot : ∀ e ∈ (contentLengthKey, [str "2"]) :: ownFields, ¬ KeptBack 200 e.1 := by decide
    refine List.flatMap_eq_nil_iff.mpr fun e he => ?_
    obtain ⟨hmem, heq⟩ := List.mem_filter.mp he
    exact absurd (of_decide_eq_true heq ▸ hkey) (hnot e hmem)
  dated := by decide
  quiet := Or.inr (Or.inl ⟨⟨2, by decide, by decide, by decide⟩, Or.inr (Or.inl (by decide))⟩)

theorem transparent_declaredAnswer :
    Transparent declaredAnswer (action .listed defaultOptions
      (fun _ => ⟨.ok 0, .ok 0, fun _ => .ok []⟩) (fun _ => true) ⟨fun _ _ => ([], none)⟩ .listed
      forwardRequest (.answer declaredAnswer)) := by
  have hforward : forwardRequest.forward ≠ [] := by decide
  exact (transparent_iff hforward declaredAnswer).mpr carried_declaredAnswer

/-- Behind a chunked answer the client reads a response of the agent itself. -/
theorem chunked_answer_has_tail :
    ¬ ∀ (headerOrder : RangeOrder GoString (List GoString)) (o : Options)
      (table : Nat → ProcessTable) (isProcessExists : Int → Bool) (s : Server)
      (order : RangeOrder Entry ProcessPidsResult) (request : HttpRequest)
      (r : Upstream request.isHead request.noBody), request.forward ≠ [] →
        Transparent r
          (action headerOrder o table isProcessExists s order request (.answer r)) := by
  intro hall
  obtain ⟨w, hw, -, -, hbody⟩ := hall .listed defaultOptions
    (fun _ => ⟨.ok 0, .ok 0, fun _ => .ok []⟩) (fun _ => true) ⟨fun _ _ => ([], none)⟩ .listed
    forwardRequest chunkedAnswer (by decide)
  have hsent : (action .listed defaultOptions (fun _ => ⟨.ok 0, .ok 0, fun _ => .ok []⟩)
      (fun _ => true) ⟨fun _ _ => ([], none)⟩ .listed forwardRequest (.answer chunkedAnswer)).map
        ResponseWriter.body = some (str "ok\x7b\"Code\":0,\"Msg\":\"\"\x7d\n") := by decide
  rw [hw, Option.map_some, hbody] at hsent
  revert hsent
  decide

end YcAgent.Api
