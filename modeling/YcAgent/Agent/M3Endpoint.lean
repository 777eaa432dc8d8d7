import YcAgent.Base.Decimal
import YcAgent.Base.RangeMap
import YcAgent.Base.Split
import YcAgent.Base.Url
import YcAgent.Config.Options

/-!
# The address that ends an M3 cycle

The agent tells the server which processes it found, and under which names, in the query of an
address: the pids in one parameter, the names in another, both in the order in which the map is
visited and with the same text between two of them. Nothing is escaped but the time zone.

The host the agent runs on is a parameter, and so is what `url.Parse` makes of the address in
front of the query.
-/
namespace YcAgent.M3

open Go Url Text

/-- What the agent asks the system it runs on for. -/
structure Host where
  outboundIP : GoString
  numCPU : Nat
  hostname : GoString
  matchingNamespace : GoString → GoString

def base64Byte (n : Nat) : Byte :=
  (str "ABCDEFGHIJKLMNOPQRSTUVWXYZabcdefghijklmnopqrstuvwxyz0123456789+/").getD n equals

/-- `base64.StdEncoding.EncodeToString`. -/
def encodeToString : GoString → GoString
  | a :: b :: c :: rest =>
    let v := a.toNat * 65536 + b.toNat * 256 + c.toNat
    [base64Byte (v / 262144), base64Byte (v / 4096 % 64), base64Byte (v / 64 % 64),
      base64Byte (v % 64)] ++ encodeToString rest
  | [a, b] =>
    let v := a.toNat * 65536 + b.toNat * 256
    [base64Byte (v / 262144), base64Byte (v / 4096 % 64), base64Byte (v / 64 % 64), equals]
  | [a] =>
    let v := a.toNat * 65536
    [base64Byte (v / 262144), base64Byte (v / 4096 % 64), equals, equals]
  | [] => []

/-- The text between two pids, and between two names. -/
def separator : GoString := str "($)"

section Endpoint

variable (o : Options) (host : Host)

def getM3CommonEndpointParameters (timestamp timezone : GoString) : GoString :=
  let parameters := str "de=" ++ host.outboundIP ++ str "&ts=" ++ timestamp
  let timezoneBase64 := encodeToString timezone
  parameters ++ (str "&timezoneID=" ++ timezoneBase64)

/-- The loop over the map of `len` pids, before its `i`-th round. -/
def writePids (len : Nat) : Nat → GoString → GoString → List (Int × GoString) → GoString × GoString
  | _, ps, ns, [] => (ps, ns)
  | i, ps, ns, (pid, name) :: rest =>
    let ps := ps ++ itoa pid
    let ns := ns ++ name
    let i := i + 1
    if i = len then (ps, ns) else writePids len i (ps ++ separator) (ns ++ separator) rest

def getPodName : GoString :=
  let isKubernetes : Bool := o .kubernetes
  if isKubernetes then host.hostname else []

/-- What the Kubernetes branch appends. -/
def podParameter : GoString :=
  let isKubernetes : Bool := o .kubernetes
  if isKubernetes then
    let podName := getPodName o host
    let ns := host.matchingNamespace podName
    if ns ≠ [] then str "&pod=" ++ ns ++ str "_" ++ podName else []
  else []

def getM3FinEndpoint (order : RangeOrder Int GoString) (timestamp timezone : GoString)
    (pids : RangeMap Int GoString) : GoString :=
  let parameters := getM3CommonEndpointParameters host timestamp timezone
  let parameters :=
    if 0 < pids.entries.length then
      let (ps, ns) := writePids pids.entries.length 0 [] [] (order.visit pids.entries)
      parameters ++ (str "&pids=" ++ ps ++ str "&m3apptoken=" ++ ns)
    else parameters
  let parameters := parameters ++ (str "&cpuCount=" ++ itoa host.numCPU)
  let parameters := parameters ++ podParameter o host
  let server : GoString := o .server
  server ++ str "/m3-fin?" ++ parameters

end Endpoint

/-! ## What the parts are -/

theorem writePids_eq {len i : Nat} (ps ns : GoString) {entries : List (Int × GoString)}
    (hne : entries ≠ []) (hlen : i + entries.length = len) :
    writePids len i ps ns entries =
      (ps ++ join (entries.map fun e => itoa e.1) separator,
        ns ++ join (entries.map Prod.snd) separator) := by
  induction entries generalizing i ps ns with
  | nil => exact absurd rfl hne
  | cons e rest ih =>
    obtain ⟨pid, name⟩ := e
    rw [List.length_cons] at hlen
    cases rest with
    | nil =>
      have hlast : i + 1 = len := hlen
      simp only [writePids, if_pos hlast, List.map_singleton, join, List.intercalate_singleton]
    | cons e' rest =>
      have hmore : i + 1 ≠ len := by
        rw [List.length_cons] at hlen
        omega
      have hrest := ih (ps ++ itoa pid ++ separator) (ns ++ name ++ separator)
        (List.cons_ne_nil e' rest) (by omega : i + 1 + (e' :: rest).length = len)
      simp only [writePids, if_neg hmore] at hrest ⊢
      rw [hrest]
      simp only [List.map_cons, join, List.intercalate_cons_cons, List.append_assoc]

theorem inside_base64Byte (n : Nat) : Inside (base64Byte n) := by
  have hall : ∀ b ∈ str "ABCDEFGHIJKLMNOPQRSTUVWXYZabcdefghijklmnopqrstuvwxyz0123456789+/",
      Inside b := by decide
  unfold base64Byte
  rw [List.getD_eq_getElem?_getD]
  cases hget : (str "ABCDEFGHIJKLMNOPQRSTUVWXYZabcdefghijklmnopqrstuvwxyz0123456789+/")[n]? with
  | none =>
    rw [Option.getD_none]
    decide
  | some b => exact hall b (List.mem_of_getElem? hget)

theorem inside_encodeToString (s : GoString) : ∀ b ∈ encodeToString s, Inside b := by
  have hequals : Inside equals := by decide
  have hnone : ∀ b ∈ ([] : GoString), Inside b := fun b hb => absurd hb List.not_mem_nil
  induction s using encodeToString.induct with
  | case1 a b c rest ih =>
    simp only [encodeToString, List.forall_mem_append, List.forall_mem_cons, inside_base64Byte,
      true_and]
    exact ⟨hnone, ih⟩
  | case2 a b =>
    simp only [encodeToString, List.forall_mem_cons, inside_base64Byte, hequals, true_and]
    exact hnone
  | case3 a =>
    simp only [encodeToString, List.forall_mem_cons, inside_base64Byte, hequals, true_and]
    exact hnone
  | case4 => exact hnone

/-- The address in front of the query. -/
def finAddress (o : Options) : GoString :=
  let server : GoString := o .server
  server ++ str "/m3-fin"

/-- The address is one that `url.Parse` takes, and what the host says stays in its parameter. -/
structure WellFormed (front : GoString → Bool) (o : Options) (host : Host)
    (timestamp : GoString) : Prop where
  clean : Clean (finAddress o)
  noQuery : question ∉ finAddress o
  front : front (finAddress o) = true
  outboundIP : ∀ b ∈ host.outboundIP, Inside b
  timestamp : ∀ b ∈ timestamp, Inside b
  hostname : ∀ b ∈ host.hostname, Inside b
  namespaces : ∀ podName, ∀ b ∈ host.matchingNamespace podName, Inside b

/-- The parameters in front of the pids, with their separators in sight. -/
theorem common_eq (host : Host) (timestamp timezone : GoString) :
    getM3CommonEndpointParameters host timestamp timezone =
      (str "de" ++ equals :: host.outboundIP) ++ ampersand ::
        ((str "ts" ++ equals :: timestamp) ++ ampersand ::
          (str "timezoneID" ++ equals :: encodeToString timezone)) := by
  have hde : str "de=" = str "de" ++ [equals] := by decide
  have hts : str "&ts=" = ampersand :: str "ts" ++ [equals] := by decide
  have hzone : str "&timezoneID=" = ampersand :: str "timezoneID" ++ [equals] := by decide
  unfold getM3CommonEndpointParameters
  rw [hde, hts, hzone]
  simp only [List.append_assoc, List.cons_append, List.nil_append]

/-- What stands behind the names. -/
def tail (o : Options) (host : Host) : GoString :=
  str "cpuCount" ++ equals :: (itoa host.numCPU ++ podParameter o host)

theorem podParameter_cases (front : GoString → Bool) {o : Options} {host : Host}
    {timestamp : GoString} (h : WellFormed front o host timestamp) :
    podParameter o host = [] ∨ ∃ pod, podParameter o host =
      ampersand :: (str "pod" ++ equals :: pod) ∧ ∀ b ∈ pod, Inside b := by
  unfold podParameter getPodName
  dsimp only
  split
  · split
    · refine Or.inr ⟨host.matchingNamespace host.hostname ++ str "_" ++ host.hostname, ?_, ?_⟩
      · have hpod : str "&pod=" = ampersand :: str "pod" ++ [equals] := by decide
        rw [hpod]
        simp only [List.append_assoc, List.cons_append, List.nil_append]
      · have hunderscore : ∀ b ∈ str "_", Inside b := by decide
        simp only [List.forall_mem_append]
        exact ⟨⟨h.namespaces _, hunderscore⟩, h.hostname⟩
    · exact Or.inl rfl
  · exact Or.inl rfl

/-- The query as far as the pids. -/
def upToPids (host : Host) (timestamp timezone ps : GoString) : GoString :=
  getM3CommonEndpointParameters host timestamp timezone ++
    ampersand :: (str "pids" ++ equals :: ps)

/-- The parts of the address. -/
theorem getM3FinEndpoint_eq (o : Options) (host : Host) (order : RangeOrder Int GoString)
    (timestamp timezone : GoString) {pids : RangeMap Int GoString} (hne : pids.entries ≠ []) :
    getM3FinEndpoint o host order timestamp timezone pids =
      finAddress o ++ question :: upToPids host timestamp timezone
          (join ((order.visit pids.entries).map fun e => itoa e.1) separator) ++
        ampersand :: (str "m3apptoken" ++ equals ::
          (join ((order.visit pids.entries).map Prod.snd) separator ++
            appended [tail o host])) := by
  have hpids : str "&pids=" = ampersand :: str "pids" ++ [equals] := by decide
  have htoken : str "&m3apptoken=" = ampersand :: str "m3apptoken" ++ [equals] := by decide
  have hcount : str "&cpuCount=" = ampersand :: str "cpuCount" ++ [equals] := by decide
  have hfin : str "/m3-fin?" = str "/m3-fin" ++ [question] := by decide
  obtain ⟨server, hserver⟩ : ∃ server : GoString, server = o .server := ⟨_, rfl⟩
  have hlen : 0 + (order.visit pids.entries).length = pids.entries.length := by
    rw [Nat.zero_add, (order.perm pids.entries).length_eq]
  have hvisit : order.visit pids.entries ≠ [] := by
    intro hnil
    rw [hnil] at hlen
    exact hne (List.length_eq_zero_iff.mp hlen.symm)
  rw [appended_singleton]
  unfold getM3FinEndpoint finAddress upToPids tail
  dsimp only
  rw [if_pos (List.length_pos_iff.mpr hne), writePids_eq [] [] hvisit hlen]
  rw [← hserver, hpids, htoken, hcount, hfin]
  simp only [List.append_assoc, List.cons_append, List.nil_append]

/-- Without processes there are no names. -/
theorem getM3FinEndpoint_empty (o : Options) (host : Host) (order : RangeOrder Int GoString)
    (timestamp timezone : GoString) :
    getM3FinEndpoint o host order timestamp timezone RangeMap.empty =
      finAddress o ++ question :: getM3CommonEndpointParameters host timestamp timezone ++
        ampersand :: tail o host := by
  have hcount : str "&cpuCount=" = ampersand :: str "cpuCount" ++ [equals] := by decide
  have hfin : str "/m3-fin?" = str "/m3-fin" ++ [question] := by decide
  obtain ⟨server, hserver⟩ : ∃ server : GoString, server = o .server := ⟨_, rfl⟩
  have hnone : ¬ 0 < (RangeMap.empty : RangeMap Int GoString).entries.length := Nat.lt_irrefl 0
  unfold getM3FinEndpoint finAddress tail
  dsimp only
  rw [if_neg hnone, ← hserver, hcount, hfin]
  simp only [List.append_assoc, List.cons_append, List.nil_append]

/-! ## The query -/

section Query

variable {front : GoString → Bool} {o : Options} {host : Host} {timestamp : GoString}
  (h : WellFormed front o host timestamp) (timezone : GoString)

include h

theorem clean_common : Clean (getM3CommonEndpointParameters host timestamp timezone) := by
  have hde : Clean (str "de=") := by decide
  have hts : Clean (str "&ts=") := by decide
  have hzone : Clean (str "&timezoneID=") := by decide
  unfold getM3CommonEndpointParameters
  simp only [clean_append]
  exact ⟨⟨⟨⟨hde, clean_of_inside h.outboundIP⟩, hts⟩, clean_of_inside h.timestamp⟩, hzone,
    clean_of_inside (inside_encodeToString timezone)⟩

theorem clean_tail : Clean (tail o host) := by
  have hcount : Clean (str "cpuCount") ∧ Clean [equals] := by decide
  have hpod : Clean (ampersand :: str "pod" ++ [equals]) := by decide
  have hnum := clean_of_inside (inside_itoa host.numCPU)
  have hrest : Clean (podParameter o host) := by
    rcases podParameter_cases front h with hnil | ⟨pod, heq, hinside⟩
    · rw [hnil]
      decide
    · have hsplit : podParameter o host = ampersand :: str "pod" ++ [equals] ++ pod := by
        rw [heq]
        simp only [List.append_assoc, List.cons_append, List.nil_append]
      rw [hsplit, clean_append]
      exact ⟨hpod, clean_of_inside hinside⟩
  have hsplit : tail o host =
      str "cpuCount" ++ [equals] ++ (itoa host.numCPU ++ podParameter o host) := by
    rw [tail, List.append_assoc]
    rfl
  rw [hsplit, clean_append, clean_append, clean_append]
  exact ⟨hcount, hnum, hrest⟩

theorem keys_common : ∀ p ∈ parseQuery (getM3CommonEndpointParameters host timestamp timezone),
    p.1 ∈ [str "de", str "ts", str "timezoneID"] := by
  have hde : IsKey (str "de") := by decide
  have hts : IsKey (str "ts") := by decide
  have hzone : IsKey (str "timezoneID") := by decide
  rw [common_eq, parseQuery_append, parseQuery_append]
  intro p hp
  rcases List.mem_append.mp hp with hp | hp
  · rw [key_of_mem_parseQuery_param hde (ampersand_not_mem h.outboundIP) hp]
    decide
  rcases List.mem_append.mp hp with hp | hp
  · rw [key_of_mem_parseQuery_param hts (ampersand_not_mem h.timestamp) hp]
    decide
  · rw [key_of_mem_parseQuery_param hzone (ampersand_not_mem (inside_encodeToString timezone)) hp]
    decide

theorem keys_tail : ∀ p ∈ parseQuery (tail o host), p.1 ∈ [str "cpuCount", str "pod"] := by
  have hcount : IsKey (str "cpuCount") := by decide
  have hpod : IsKey (str "pod") := by decide
  have hnum := ampersand_not_mem (inside_itoa host.numCPU)
  intro p hp
  rcases podParameter_cases front h with hnil | ⟨pod, heq, hinside⟩
  · rw [tail, hnil, List.append_nil] at hp
    rw [key_of_mem_parseQuery_param hcount hnum hp]
    decide
  · have hsplit : tail o host = (str "cpuCount" ++ equals :: itoa host.numCPU) ++
        ampersand :: (str "pod" ++ equals :: pod) := by
      rw [tail, heq]
      simp only [List.append_assoc, List.cons_append]
    rw [hsplit, parseQuery_append] at hp
    rcases List.mem_append.mp hp with hp | hp
    · rw [key_of_mem_parseQuery_param hcount hnum hp]
      decide
    · rw [key_of_mem_parseQuery_param hpod (ampersand_not_mem hinside) hp]
      decide

end Query

/-! ## The map in the address -/

/-- What a reader of the address finds: the two lists together are the map, and the other
parameters are those of the address for no process. -/
def CarriesMap (front : GoString → Bool) (url url0 : GoString) (pids : RangeMap Int GoString) :
    Prop :=
  ∃ q q0, query front url = some q ∧ query front url0 = some q0 ∧
    (splitAll separator (Url.get q (str "pids"))).length =
      (splitAll separator (Url.get q (str "m3apptoken"))).length ∧
    (∀ pid name, (pid, name) ∈ (splitAll separator (Url.get q (str "pids"))).zip
        (splitAll separator (Url.get q (str "m3apptoken"))) ↔
      ∃ e ∈ pids.entries, itoa e.1 = pid ∧ e.2 = name) ∧
    ∀ key ∈ [str "de", str "ts", str "timezoneID", str "cpuCount"], Url.get q key = Url.get q0 key

/-- A name that is read as it was written, and is not taken for two. -/
def PlainName (name : GoString) : Prop :=
  Literal name ∧ Clean name ∧ ¬ separator <:+: name

instance (name : GoString) : Decidable (PlainName name) :=
  inferInstanceAs (Decidable (_ ∧ _ ∧ ¬ _))

/-- Lists whose pairs are the entries of a map with the same keys in the same order have its
values in that order. -/
theorem values_of_zip {entries : List (Int × GoString)} (hnodup : (entries.map Prod.fst).Nodup)
    {ns : List GoString} (hlength : entries.length = ns.length)
    (hzip : ∀ pid name, (pid, name) ∈ (entries.map fun e => itoa e.1).zip ns →
      ∃ e ∈ entries, itoa e.1 = pid ∧ e.2 = name) :
    ns = entries.map Prod.snd := by
  refine List.ext_getElem (by rw [List.length_map, hlength]) fun i hi hi' => ?_
  rw [List.length_map] at hi'
  have hlen : i < ((entries.map fun e => itoa e.1).zip ns).length := by
    rw [List.length_zip, List.length_map]
    omega
  have hmem := List.getElem_mem hlen
  rw [List.getElem_zip, List.getElem_map] at hmem
  obtain ⟨e, he, hpid, hname⟩ := hzip _ _ hmem
  have hkey : e.1 = entries[i].1 := itoa_injective hpid
  have hsame : e = entries[i] :=
    List.inj_on_of_nodup_map hnodup he (List.getElem_mem hi') hkey
  rw [List.getElem_map, ← hname, hsame]

theorem separator_plain : ∀ b ∈ separator, (b ≠ ampersand ∧ b ≠ semicolon ∧ b ≠ percent ∧
    b ≠ plus) ∧ b ≠ Url.hash ∧ isCTL b = false := by decide

theorem plain_join_iff (pieces : List GoString) :
    (Literal (join pieces separator) ∧ Clean (join pieces separator)) ↔
      ∀ piece ∈ pieces, Literal piece ∧ Clean piece := by
  have hjoin := forall_mem_intercalate separator_plain pieces
  simp only [literal_iff_forall, clean_iff_forall, ← forall_and]
  simpa only [imp_and, join] using hjoin

theorem plain_itoa (n : Int) :
    Literal (itoa n) ∧ Clean (itoa n) ∧ ¬ separator <:+: itoa n := by
  refine ⟨literal_itoa n, clean_of_inside (inside_itoa n), fun hinfix => ?_⟩
  have hopen : (40 : Byte) ∈ itoa n := hinfix.mem (by decide)
  exact not_mem_itoa (by decide) (by decide) n hopen

theorem splitAll_join_iff {pieces : List GoString} (hne : pieces ≠ []) :
    splitAll separator (join pieces separator) = pieces ↔
      ∀ piece ∈ pieces, ¬ separator <:+: piece := by
  have hsplit : separator = 40 :: str "$)" := by decide
  rw [hsplit]
  exact splitAll_intercalate_iff (by decide) hne

section Names

variable {front : GoString → Bool} {o : Options} {host : Host} {timestamp : GoString}
  (h : WellFormed front o host timestamp) (timezone : GoString) {ps : GoString}
  (hps : Literal ps ∧ Clean ps)

include hps in
theorem parseQuery_upToPids : parseQuery (upToPids host timestamp timezone ps) =
    parseQuery (getM3CommonEndpointParameters host timestamp timezone) ++
      [(str "pids", ps)] := by
  rw [upToPids, parseQuery_append, parseQuery_param (by decide) hps.1]

include h hps

theorem clean_upToPids : Clean (upToPids host timestamp timezone ps) := by
  have hpids : Clean (ampersand :: str "pids" ++ [equals]) := by decide
  have hsplit : upToPids host timestamp timezone ps =
      getM3CommonEndpointParameters host timestamp timezone ++
        (ampersand :: str "pids" ++ [equals] ++ ps) := by
    unfold upToPids
    simp only [List.append_assoc, List.cons_append, List.nil_append]
  rw [hsplit, clean_append, clean_append]
  exact ⟨clean_common h timezone, hpids, hps.2⟩

omit hps in
theorem parse_start {start : GoString} (hstart : Clean start) :
    parse front (finAddress o ++ question :: start) = some start ∧
      Url.hash ∉ finAddress o ++ question :: start ∧
      question ∈ finAddress o ++ question :: start := by
  have hmark : Clean [question] := by decide
  have hclean : Clean (finAddress o ++ question :: start) :=
    (clean_append _ _).mpr ⟨h.clean, (clean_append [question] _).mpr ⟨hmark, hstart⟩⟩
  exact ⟨parse_of_clean h.clean h.noQuery h.front hstart, hclean.1,
    List.mem_append_right _ List.mem_cons_self⟩

theorem query_of_clean {names : GoString} (hnames : Clean names) :
    query front (finAddress o ++ question :: upToPids host timestamp timezone ps ++
        ampersand :: (str "m3apptoken" ++ equals :: (names ++ appended [tail o host]))) =
      some (parseQuery (upToPids host timestamp timezone ps) ++
        (parseQuery (str "m3apptoken" ++ equals :: names) ++ parseQuery (tail o host))) := by
  obtain ⟨hparse, hhash, hquestion⟩ := parse_start h (clean_upToPids h timezone hps)
  have hmore : ∀ m ∈ [tail o host], Clean m := List.forall_mem_singleton.mpr (clean_tail h)
  rw [query_param_of_clean hhash hquestion hparse (by decide) hmore hnames,
    List.flatMap_singleton]

omit hps in
theorem query_empty :
    query front (finAddress o ++ question ::
        getM3CommonEndpointParameters host timestamp timezone ++ ampersand :: tail o host) =
      some (parseQuery (getM3CommonEndpointParameters host timestamp timezone) ++
        parseQuery (tail o host)) := by
  obtain ⟨hparse, hhash, hquestion⟩ := parse_start h (clean_common h timezone)
  exact query_append hhash hquestion hparse (clean_tail h)

/-- An address that can be parsed has names without control bytes, or is cut off in them. -/
theorem query_names {names : GoString} {q : List (GoString × GoString)}
    (hq : query front (finAddress o ++ question :: upToPids host timestamp timezone ps ++
        ampersand :: (str "m3apptoken" ++ equals :: (names ++ appended [tail o host]))) =
      some q) :
    ∃ text rest, q = parseQuery (upToPids host timestamp timezone ps) ++
        (parseQuery (str "m3apptoken" ++ equals :: text) ++ rest) ∧
      text <+: names ∧ (∀ p ∈ rest, p.1 ∈ [str "cpuCount", str "pod"]) ∧
      (text = names → Clean names) := by
  obtain ⟨hparse, hhash, hquestion⟩ := parse_start h (clean_upToPids h timezone hps)
  have hmore : ∀ m ∈ [tail o host], Clean m := List.forall_mem_singleton.mpr (clean_tail h)
  obtain ⟨text, rest, heq, htext, hrest, hclean⟩ :=
    query_param hhash hquestion hparse (by decide) hmore hq
  rw [List.flatMap_singleton] at hrest
  exact ⟨text, rest, heq, htext, fun p hp => keys_tail h p (hrest p hp), hclean⟩

theorem values_upToPids (key : GoString) (hkey : key ∉ [str "de", str "ts", str "timezoneID"]) :
    values (parseQuery (upToPids host timestamp timezone ps)) key =
      values [(str "pids", ps)] key := by
  rw [parseQuery_upToPids timezone hps, values_append, values_eq_nil, List.nil_append]
  intro p hp heq
  exact hkey (heq ▸ keys_common h timezone p hp)

theorem get_pids (rest : List (GoString × GoString)) :
    Url.get (parseQuery (upToPids host timestamp timezone ps) ++ rest) (str "pids") = ps := by
  rw [Url.get, values_append, values_upToPids h timezone hps _ (by decide)]
  rfl

theorem get_m3apptoken (names : GoString) (rest : List (GoString × GoString)) :
    Url.get (parseQuery (upToPids host timestamp timezone ps) ++
      ([(str "m3apptoken", names)] ++ rest)) (str "m3apptoken") = names := by
  rw [Url.get, values_append, values_append, values_upToPids h timezone hps _ (by decide)]
  rfl

/-- A text that the address brings back under the names is all of what was written there. -/
theorem names_of_get {names text : GoString} {rest : List (GoString × GoString)}
    (htext : text <+: names) (hrest : ∀ p ∈ rest, p.1 ∈ [str "cpuCount", str "pod"])
    (hget : Url.get (parseQuery (upToPids host timestamp timezone ps) ++
      (parseQuery (str "m3apptoken" ++ equals :: text) ++ rest)) (str "m3apptoken") = names) :
    text = names ∧ Literal names := by
  rcases eq_nil_or_mem_of_get hget with rfl | hmem
  · exact ⟨List.prefix_nil.mp htext, by decide⟩
  rcases List.mem_append.mp hmem with hmem | hmem
  · have hvalue := mem_values_iff.mpr hmem
    rw [values_upToPids h timezone hps _ (by decide)] at hvalue
    exact absurd hvalue List.not_mem_nil
  rcases List.mem_append.mp hmem with hmem | hmem
  · exact literal_of_mem_parseQuery (by decide) htext hmem
  · have hkey : str "m3apptoken" ∈ [str "cpuCount", str "pod"] := hrest _ hmem
    exact absurd hkey (by decide)

omit h in
/-- The parameters of every address are in the one for no process too. -/
theorem get_common {names key : GoString} (hpidsKey : str "pids" ≠ key)
    (htokenKey : str "m3apptoken" ≠ key) (rest : List (GoString × GoString)) :
    Url.get (parseQuery (upToPids host timestamp timezone ps) ++
        ([(str "m3apptoken", names)] ++ rest)) key =
      Url.get (parseQuery (getM3CommonEndpointParameters host timestamp timezone) ++ rest) key := by
  have hnone (k value : GoString) (hk : k ≠ key) : values [(k, value)] key = [] :=
    values_eq_nil (List.forall_mem_singleton.mpr hk)
  rw [Url.get, Url.get, parseQuery_upToPids timezone hps]
  simp only [values_append, hnone _ _ hpidsKey, hnone _ _ htokenKey, List.append_nil,
    List.nil_append]

end Names

/-! ## When the map comes back -/

/-- The pids of a map, as they stand in the address. -/
theorem plain_pids (entries : List (Int × GoString)) :
    Literal (join (entries.map fun e => itoa e.1) separator) ∧
      Clean (join (entries.map fun e => itoa e.1) separator) := by
  refine (plain_join_iff _).mpr fun piece hpiece => ?_
  obtain ⟨e, -, rfl⟩ := List.mem_map.mp hpiece
  exact ⟨(plain_itoa e.1).1, (plain_itoa e.1).2.1⟩

theorem splitAll_pids {entries : List (Int × GoString)} (hne : entries ≠ []) :
    splitAll separator (join (entries.map fun e => itoa e.1) separator) =
      entries.map fun e => itoa e.1 := by
  refine (splitAll_join_iff (by simpa using hne)).mpr fun piece hpiece => ?_
  obtain ⟨e, -, rfl⟩ := List.mem_map.mp hpiece
  exact (plain_itoa e.1).2.2

/-- Every name is plain exactly where their text is read as it was written and split as it was
joined. -/
theorem forall_plainName_iff {entries : List (Int × GoString)} (hne : entries ≠ []) :
    (∀ e ∈ entries, PlainName e.2) ↔
      (Literal (join (entries.map Prod.snd) separator) ∧
        Clean (join (entries.map Prod.snd) separator)) ∧
      splitAll separator (join (entries.map Prod.snd) separator) = entries.map Prod.snd := by
  rw [plain_join_iff, splitAll_join_iff (by simpa using hne), List.forall_mem_map,
    List.forall_mem_map, ← forall₂_and]
  exact forall₂_congr fun e he => and_assoc.symm

/-- The address carries the map exactly when every name is plain. -/
theorem getM3FinEndpoint_carries_iff (front : GoString → Bool) (o : Options) (host : Host)
    (order : RangeOrder Int GoString) (timestamp timezone : GoString)
    (pids : RangeMap Int GoString) (h : WellFormed front o host timestamp)
    (hne : pids.entries ≠ []) :
    CarriesMap front (getM3FinEndpoint o host order timestamp timezone pids)
        (getM3FinEndpoint o host order timestamp timezone RangeMap.empty) pids ↔
      ∀ e ∈ pids.entries, PlainName e.2 := by
  have hperm := order.perm pids.entries
  have hmem (e : Int × GoString) : e ∈ order.visit pids.entries ↔ e ∈ pids.entries :=
    hperm.mem_iff
  have hvisit : order.visit pids.entries ≠ [] := fun hnil => hne (hnil ▸ hperm).nil_eq.symm
  have hnodup : ((order.visit pids.entries).map Prod.fst).Nodup :=
    (hperm.map Prod.fst).nodup_iff.mpr pids.nodupKeys
  rw [getM3FinEndpoint_eq o host order timestamp timezone hne, getM3FinEndpoint_empty]
  generalize order.visit pids.entries = entries at hmem hvisit hnodup
  have hps := plain_pids entries
  have hpids := splitAll_pids hvisit
  have hnames : (∀ e ∈ pids.entries, PlainName e.2) ↔ ∀ e ∈ entries, PlainName e.2 :=
    forall_congr' fun e => by rw [hmem]
  rw [hnames, forall_plainName_iff hvisit]
  constructor
  · intro hcarries
    obtain ⟨q, q0, hq, -, hlength, hzip, -⟩ := hcarries
    obtain ⟨text, rest, rfl, htext, hrest, hclean⟩ := query_names h timezone hps hq
    rw [get_pids h timezone hps, hpids] at hlength hzip
    rw [List.length_map] at hlength
    have hvalues := values_of_zip hnodup hlength fun pid name hpair => by
      obtain ⟨e, he, hboth⟩ := (hzip pid name).mp hpair
      exact ⟨e, (hmem e).mpr he, hboth⟩
    have hsep : separator ≠ [] := by decide
    have hget := intercalate_splitAll hsep
      (Url.get (parseQuery (upToPids host timestamp timezone
          (join (entries.map fun e => itoa e.1) separator)) ++
        (parseQuery (str "m3apptoken" ++ equals :: text) ++ rest)) (str "m3apptoken"))
    rw [hvalues] at hget
    obtain ⟨rfl, hliteral⟩ := names_of_get h timezone hps htext hrest hget.symm
    refine ⟨⟨hliteral, hclean rfl⟩, ?_⟩
    rw [join, hget]
    exact hvalues
  · intro hplain
    obtain ⟨hall, hone⟩ := hplain
    refine ⟨_, _, query_of_clean h timezone hps hall.2, query_empty h timezone, ?_⟩
    rw [parseQuery_param (by decide) hall.1, get_pids h timezone hps,
      get_m3apptoken h timezone hps, hpids, hone]
    refine ⟨by rw [List.length_map, List.length_map], fun pid name => ?_, fun key hkey => ?_⟩
    · rw [List.zip_map', List.mem_map]
      simp only [Prod.mk.injEq, hmem]
    · have hpidsKey : str "pids" ≠ key := by
        rintro rfl
        exact absurd hkey (by decide)
      have htokenKey : str "m3apptoken" ≠ key := by
        rintro rfl
        exact absurd hkey (by decide)
      exact get_common timezone hps hpidsKey htokenKey _

def oneHost : Host := ⟨str "10.0.0.1", 8, [], fun _ => []⟩

theorem wellFormed_oneHost : WellFormed (fun _ => true)
    (Function.update defaultOptions .server (str "https://host")) oneHost
    (str "2024-01-01T00-00-00") where
  clean := by
    have haddress : Clean (str "https://host" ++ str "/m3-fin") := by decide
    exact haddress
  noQuery := by
    have haddress : question ∉ str "https://host" ++ str "/m3-fin" := by decide
    exact haddress
  front := rfl
  outboundIP := by decide
  timestamp := by decide
  hostname := by decide
  namespaces := fun _ b hb => absurd hb List.not_mem_nil

theorem getM3FinEndpoint_carries_twoPids :
    CarriesMap (fun _ => true)
      (getM3FinEndpoint (Function.update defaultOptions .server (str "https://host")) oneHost
        RangeOrder.reversed (str "2024-01-01T00-00-00") (str "America/New_York")
        ⟨[(7, str "orders app"), (123, str "")], by decide⟩)
      (getM3FinEndpoint (Function.update defaultOptions .server (str "https://host")) oneHost
        RangeOrder.reversed (str "2024-01-01T00-00-00") (str "America/New_York") RangeMap.empty)
      ⟨[(7, str "orders app"), (123, str "")], by decide⟩ :=
  (getM3FinEndpoint_carries_iff _ _ _ _ _ _ _ wellFormed_oneHost (List.cons_ne_nil _ _)).mpr
    (by decide)

/-- A name with an ampersand is cut off there. -/
theorem getM3FinEndpoint_ampersand :
    ¬ ∀ (front : GoString → Bool) (o : Options) (host : Host) (order : RangeOrder Int GoString)
      (timestamp timezone : GoString) (pids : RangeMap Int GoString),
      WellFormed front o host timestamp → pids.entries ≠ [] →
        CarriesMap front (getM3FinEndpoint o host order timestamp timezone pids)
          (getM3FinEndpoint o host order timestamp timezone RangeMap.empty) pids := by
  intro h
  obtain ⟨q, q0, hq, -, -, hzip, -⟩ := h _ _ _ RangeOrder.listed _ []
    ⟨[(7, str "R&D")], by decide⟩ wellFormed_oneHost (List.cons_ne_nil _ _)
  have hquery : query (fun _ => true)
      (getM3FinEndpoint (Function.update defaultOptions .server (str "https://host")) oneHost
        RangeOrder.listed (str "2024-01-01T00-00-00") [] ⟨[(7, str "R&D")], by decide⟩) =
      some [(str "de", str "10.0.0.1"), (str "ts", str "2024-01-01T00-00-00"),
        (str "timezoneID", []), (str "pids", str "7"), (str "m3apptoken", str "R"),
        (str "D", []), (str "cpuCount", str "8")] := by
    decide
  rw [hquery] at hq
  obtain rfl := Option.some.inj hq
  obtain ⟨e, he, hpid, hname⟩ := (hzip (str "7") (str "R")).mp (by decide)
  obtain rfl := List.mem_singleton.mp he
  exact absurd hname (by decide)

end YcAgent.M3
