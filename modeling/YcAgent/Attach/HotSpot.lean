import YcAgent.Attach.HotSpotListener
import YcAgent.Base.Socket

/-!
# Attaching to a HotSpot JVM

`jattach_hotspot.c`: a command of five strings, and a response whose first line is a code. The
JVM is taken to end its response: a read from one that keeps the connection open without a word
waits, and the client with it.
-/
namespace YcAgent.Attach.HotSpot

open Go hiding atoi
open CString Socket

/-! ## The command -/

/-- Writes one after another, up to the first that takes nothing. -/
def writeEach : List GoString → Sink Byte → ℤ × Sink Byte
  | [], fd => (0, fd)
  | part :: parts, fd =>
    match fd.write part with
    | (none, fd) => (-1, fd)
    | (some n, fd) => if n = 0 then (-1, fd) else writeEach parts fd

/-- The protocol version and four arguments. -/
def commandParts (argv : List GoString) : List GoString :=
  str "1" :: (List.range 4).map (argument argv)

def writeCommand (fd : Sink Byte) (argv : List GoString) : ℤ × Sink Byte :=
  writeEach ((commandParts argv).map (· ++ [nul])) fd

/-- Every one of the writes takes its part whole. -/
def AllTaken : List GoString → Sink Byte → Prop
  | [], _ => True
  | part :: parts, fd => fd.TakesAll part ∧ AllTaken parts (fd.write part).2

theorem writeEach_of_allTaken {parts : List GoString} (hne : [] ∉ parts) {fd : Sink Byte}
    (h : AllTaken parts fd) :
    (writeEach parts fd).1 = 0 ∧ (writeEach parts fd).2.wire = fd.wire ++ parts.flatten := by
  induction parts generalizing fd with
  | nil => exact ⟨rfl, by rw [List.flatten_nil, List.append_nil]; rfl⟩
  | cons part parts ih =>
    obtain ⟨hpart, hrest⟩ := h
    rw [Sink.write_of_takesAll hpart] at hrest
    have hpos : part.length ≠ 0 := fun hzero =>
      hne (List.length_eq_zero_iff.mp hzero ▸ List.mem_cons_self)
    obtain ⟨hret, hwire⟩ := ih (fun hmem => hne (List.mem_cons_of_mem part hmem)) hrest
    simp only [writeEach, Sink.write_of_takesAll hpart, if_neg hpos]
    exact ⟨hret, by rw [hwire, List.flatten_cons, List.append_assoc]⟩

/-- A part that was not taken whole is missed at the end, whatever follows it. -/
theorem exists_sent {parts : List GoString} {fd : Sink Byte} (h : (writeEach parts fd).1 = 0) :
    ∃ sent, (writeEach parts fd).2.wire = fd.wire ++ sent ∧
      sent.length ≤ parts.flatten.length ∧
      (sent.length = parts.flatten.length → AllTaken parts fd) := by
  induction parts generalizing fd with
  | nil => exact ⟨[], by rw [List.append_nil]; rfl, Nat.le_refl _, fun _ => trivial⟩
  | cons part parts ih =>
    rcases fd.write_cases part with ⟨t, ht, -⟩ | ⟨n, t, ht, hn, hwire, -, hall⟩
    · simp only [writeEach, ht] at h
      exact absurd h (by decide)
    · by_cases hzero : n = 0
      · simp only [writeEach, ht, if_pos hzero] at h
        exact absurd h (by decide)
      · simp only [writeEach, ht, if_neg hzero] at h ⊢
        obtain ⟨sent, hsent, hlen, htaken⟩ := ih h
        refine ⟨part.take n ++ sent, ?_, ?_, fun heq => ?_⟩
        · rw [hsent, hwire, List.append_assoc]
        · rw [List.flatten_cons, List.length_append, List.length_append, List.length_take]
          omega
        · rw [List.flatten_cons, List.length_append, List.length_append, List.length_take] at heq
          have hfull : n = part.length := by omega
          refine ⟨hall.mp hfull, ?_⟩
          rw [ht]
          exact htaken (by omega)

theorem nul_not_mem_commandParts {argv : List GoString} :
    ∀ part ∈ commandParts argv, nul ∉ part := by
  intro part hpart
  rcases List.mem_cons.mp hpart with rfl | hpart
  · decide
  · obtain ⟨i, -, rfl⟩ := List.mem_map.mp hpart
    exact nul_not_mem_argument argv i

theorem flatten_terminated (parts : List GoString) :
    (parts.map (· ++ [nul])).flatten = [nul].intercalate (parts ++ [[]]) := by
  induction parts with
  | nil => rfl
  | cons part parts ih =>
    rw [List.map_cons, List.flatten_cons, ih, List.cons_append]
    cases parts with
    | nil => simp [List.intercalate]
    | cons next parts => simp [List.intercalate]

/-- The JVM reads strings that end with a NUL: it gets the version and the four arguments if
and only if no write was cut short. -/
theorem command_arrives_iff (takes : List (Option ℕ)) (argv : List GoString) :
    ((writeCommand ⟨[], takes⟩ argv).1 = 0 ∧
        split (writeCommand ⟨[], takes⟩ argv).2.wire nul = commandParts argv ++ [[]]) ↔
      AllTaken ((commandParts argv).map (· ++ [nul])) ⟨[], takes⟩ := by
  have hwhole : split ([nul].intercalate (commandParts argv ++ [[]])) nul =
      commandParts argv ++ [[]] := by
    refine List.splitOn_intercalate nul ?_ (by simp)
    intro part hpart
    rcases List.mem_append.mp hpart with hpart | hpart
    · exact nul_not_mem_commandParts part hpart
    · rw [List.mem_singleton.mp hpart]
      exact List.not_mem_nil
  unfold writeCommand
  constructor
  · rintro ⟨hret, hsplit⟩
    obtain ⟨sent, hsent, -, htaken⟩ := exists_sent hret
    apply htaken
    have hwire := congrArg (List.intercalate [nul]) hsplit
    rw [split, List.intercalate_splitOn, hsent, List.nil_append] at hwire
    rw [flatten_terminated, hwire]
  · intro h
    have hne : [] ∉ (commandParts argv).map (· ++ [nul]) := by
      intro hmem
      obtain ⟨part, -, hnil⟩ := List.mem_map.mp hmem
      exact List.append_ne_nil_of_right_ne_nil part (by decide) hnil
    obtain ⟨hret, hwire⟩ := writeEach_of_allTaken hne h
    refine ⟨hret, ?_⟩
    rw [hwire, List.nil_append, flatten_terminated, hwhole]

/-! ## The response -/

/-- The buffer of 8192 bytes keeps one for the NUL. -/
def room : ℕ := 8191

/-- A turn of the loop that goes on reading after `load`. -/
def loadTurn (st : GoString × Source Byte) :
    (GoString × Source Byte) ⊕ (GoString × Source Byte) :=
  if st.1.length < room then
    match st.2.read (room - st.1.length) with
    | (.data bytes, fd) => .inr (st.1 ++ bytes, fd)
    | (.ended _, fd) => .inl (st.1, fd)
  else .inl st

/-- The code in the second line; `junk` is what the memory behind the response holds. -/
def loadResult (buf junk : GoString) : ℤ :=
  let mem := (buf ++ nul :: junk).drop 2
  atoi (if hasPrefix mem (str "return code: ") then mem.drop 13 else mem)

def IsLoad (argv : List GoString) : Prop :=
  0 < argv.length ∧ string (argv.getD 0 []) = str "load"

instance (argv : List GoString) : Decidable (IsLoad argv) := inferInstanceAs (Decidable (_ ∧ _))

/-- The result and what goes to the standard output. -/
def readResponse (fd : Source Byte) (argv : List GoString) (junk : GoString) :
    Option (ℤ × GoString) :=
  match fd.read room with
  | (.ended _, _) => some (1, [])
  | (.data buf, fd) => do
    let result := atoi (buf ++ nul :: junk)
    let (result, buf, fd) ←
      if result = 0 ∧ IsLoad argv then do
        let (buf, fd) ← Loop.run loadTurn (fd.text.length + 1) (buf, fd)
        pure (loadResult buf junk, buf, fd)
      else pure (result, buf, fd)
    let (copied, _) ← Loop.run (drainTurn 8192) (fd.text.length + 1) (buf, fd)
    pure (result, str "JVM response code = " ++ copied ++ [newline])

/-- The loop after `load` fills the buffer as far as the stream goes. -/
theorem run_loadTurn {buf whole : GoString} {fd : Source Byte} (hwhole : buf ++ fd.text = whole)
    (hlen : buf.length ≤ room) :
    ∃ fd', Loop.run loadTurn (fd.text.length + 1) (buf, fd) = some (whole.take room, fd') ∧
      whole.take room ++ fd'.text = whole := by
  have hturn : ∀ st : GoString × Source Byte,
      (st.1 ++ st.2.text = whole ∧ st.1.length ≤ room) →
      (∃ r, loadTurn st = .inl r ∧ r.1 = whole.take room ∧ r.1 ++ r.2.text = whole) ∨
        ∃ t, loadTurn st = .inr t ∧ (t.1 ++ t.2.text = whole ∧ t.1.length ≤ room) ∧
          t.2.text.length < st.2.text.length := by
    rintro ⟨acc, u⟩ ⟨hacc, hle⟩
    simp only at hacc hle
    by_cases hfull : acc.length < room
    · have hroom : 0 < room - acc.length := by omega
      by_cases hu : u.text = []
      · refine Or.inl ⟨(acc, u), ?_, ?_, hacc⟩
        · simp only [loadTurn, if_pos hfull, Source.read_of_text_nil _ hroom hu]
        · have hall : acc = whole := by rw [← hacc, hu, List.append_nil]
          rw [← hall, List.take_of_length_le hle]
      · obtain ⟨bytes, v, hv⟩ := Source.exists_took _ hroom hu
        refine Or.inr ⟨(acc ++ bytes, v), ?_, ⟨?_, ?_⟩, hv.text_length_lt⟩
        · simp only [loadTurn, if_pos hfull, hv.read]
        · simp only [List.append_assoc, hv.text]
          exact hacc
        · have := hv.length_le
          simp only [List.length_append]
          omega
    · have hexact : acc.length = room := by omega
      refine Or.inl ⟨(acc, u), ?_, ?_, hacc⟩
      · simp only [loadTurn, if_neg hfull]
      · rw [← hacc, ← hexact, List.take_left]
  obtain ⟨⟨acc, fd'⟩, hr, hbuf, hrest⟩ :=
    Loop.run_of_variant (fun st : GoString × Source Byte => st.2.text.length) hturn
      (s := (buf, fd)) ⟨hwhole, hlen⟩
  obtain rfl : acc = whole.take room := hbuf
  exact ⟨fd', hr, hrest⟩

/-- What a response leads to whose first read gets `bytes`. -/
theorem readResponse_eq {fd rest : Source Byte} {bytes : GoString}
    (hfirst : Source.Took room fd bytes rest) (argv : List GoString) (junk : GoString) :
    readResponse fd argv junk =
      some (if atoi (bytes ++ nul :: junk) = 0 ∧ IsLoad argv
        then loadResult (fd.text.take room) junk else atoi (bytes ++ nul :: junk),
        str "JVM response code = " ++ fd.text ++ [newline]) := by
  unfold readResponse
  simp only [hfirst.read]
  by_cases hload : atoi (bytes ++ nul :: junk) = 0 ∧ IsLoad argv
  · obtain ⟨fd', hfill, hrest⟩ := run_loadTurn hfirst.text hfirst.length_le
    obtain ⟨t, -, hdrain⟩ := run_drainTurn 8192 (by decide) (fd.text.take room) fd'
    simp only [if_pos hload, hfill, Option.pure_def, Option.bind_eq_bind, Option.bind_some,
      hdrain, hrest]
  · obtain ⟨t, -, hdrain⟩ := run_drainTurn 8192 (by decide) bytes rest
    simp only [if_neg hload, Option.pure_def, Option.bind_eq_bind, Option.bind_some, hdrain,
      hfirst.text]

theorem readResponse_of_text_nil {fd : Source Byte} (h : fd.text = []) (argv : List GoString)
    (junk : GoString) : readResponse fd argv junk = some (1, []) := by
  simp only [readResponse, Source.read_of_text_nil room (by decide) h]

theorem atoi_first_read_iff {fd rest : Source Byte} {bytes : GoString}
    (hfirst : Source.Took room fd bytes rest) {c : ℤ} (hc : InInt32 c) {body : GoString}
    (htext : fd.text = itoa c ++ newline :: body) (junk : GoString) :
    atoi (bytes ++ nul :: junk) = c ↔ itoa c <+: bytes := by
  have hprefix : bytes <+: itoa c ++ newline :: body := htext ▸ hfirst.isPrefix
  rw [atoi_append_nul]
  refine atoi_prefix_iff hc hfirst.ne_nil hprefix ?_
  rintro b ⟨⟩
  decide

/-- The second line of a response to `load` has the code alone or behind some words. -/
theorem loadResult_eq {lead rest : GoString} (hlead : lead ∈ [[], str "return code: "]) {d : ℤ}
    (hd : InInt32 d) (hrest : ∀ b ∈ rest.head?, ¬ IsDigit b) (junk : GoString) :
    loadResult (str "0\n" ++ (lead ++ (itoa d ++ rest))) junk = d := by
  have hmem : (str "0\n" ++ (lead ++ (itoa d ++ rest)) ++ nul :: junk).drop 2 =
      lead ++ (itoa d ++ (rest ++ nul :: junk)) := by
    simp only [List.append_assoc]
    exact List.drop_left' (by decide)
  have hcode : atoi (itoa d ++ (rest ++ nul :: junk)) = d := by
    rw [← List.append_assoc, atoi_append_nul, atoi_itoa hd hrest]
  rw [loadResult, hmem]
  simp only [List.mem_cons, List.not_mem_nil, or_false] at hlead
  rcases hlead with rfl | rfl
  · obtain ⟨b, t, hb, hfirst⟩ := head_itoa d
    have hnot : ¬ hasPrefix ([] ++ (itoa d ++ (rest ++ nul :: junk))) (str "return code: ") := by
      rw [hasPrefix_iff, List.nil_append, hb, List.cons_append]
      intro hpre
      obtain rfl : 114 = b := (List.cons_prefix_cons.mp hpre).1
      exact absurd hfirst (by decide)
    rw [if_neg hnot]
    exact hcode
  · have hpre : hasPrefix (str "return code: " ++ (itoa d ++ (rest ++ nul :: junk)))
        (str "return code: ") := (hasPrefix_iff _ _).mpr (List.prefix_append _ _)
    have hdrop : (str "return code: " ++ (itoa d ++ (rest ++ nul :: junk))).drop 13 =
        itoa d ++ (rest ++ nul :: junk) := List.drop_left' (by decide)
    rw [if_pos hpre, hdrop]
    exact hcode

/-- The second line fits into the buffer with its number whole, so it is read whatever the
segments are. -/
theorem loadResult_take {lead : GoString} (hlead : lead ∈ [[], str "return code: "]) {d : ℤ}
    (hd : InInt32 d) (tail junk : GoString) :
    loadResult ((str "0\n" ++ (lead ++ (itoa d ++ newline :: tail))).take room) junk = d := by
  have hlen := length_itoa_le hd
  have hshort : (str "0\n" ++ (lead ++ itoa d)).length ≤ room := by
    have hwords : lead.length ≤ 13 := by
      simp only [List.mem_cons, List.not_mem_nil, or_false] at hlead
      rcases hlead with rfl | rfl <;> decide
    have htwo : (str "0\n").length = 2 := by decide
    rw [List.length_append, List.length_append, htwo]
    show _ ≤ 8191
    omega
  have hsplit : str "0\n" ++ (lead ++ (itoa d ++ newline :: tail)) =
      str "0\n" ++ (lead ++ itoa d) ++ newline :: tail := by
    simp only [List.append_assoc]
  have hnext : ∀ b ∈ ((newline :: tail).take
      (room - (str "0\n" ++ (lead ++ itoa d)).length)).head?, ¬ IsDigit b := by
    intro b hb
    rw [List.head?_take] at hb
    split at hb
    · cases hb
    · cases hb
      decide
  rw [hsplit, List.take_append, List.take_of_length_le hshort]
  have hcode := loadResult_eq hlead hd hnext junk
  simpa only [List.append_assoc] using hcode

/-- The result for a response that begins with the code `c`, of which `bytes` come first. -/
structure Coded (argv : List GoString) (c : ℤ) (body bytes : GoString) (result : ℤ) : Prop where
  first : ¬ IsLoad argv → (result = c ↔ itoa c <+: bytes)
  failed : IsLoad argv → c ≠ 0 → itoa c <+: bytes → result = c
  /-- `load` has done it, and the code of the agent is in the second line -/
  second : IsLoad argv → c = 0 → ∀ lead ∈ [[], str "return code: "], ∀ d tail, InInt32 d →
    body = lead ++ (itoa d ++ newline :: tail) → result = d

/-- How many bytes of a response come first is up to the network. Everything is copied to
the output all the same. The result is the code of the first line if and only if the first
read has got all of its digits; after `load` it is that of the second line, which is waited for. -/
theorem response_copied {fd rest : Source Byte} {bytes : GoString}
    (hfirst : Source.Took room fd bytes rest) {c : ℤ} (hc : InInt32 c) {body : GoString}
    (htext : fd.text = itoa c ++ newline :: body) (argv : List GoString) (junk : GoString) :
    ∃ result, readResponse fd argv junk =
        some (result, str "JVM response code = " ++ fd.text ++ [newline]) ∧
      Coded argv c body bytes result := by
  have hcode := atoi_first_read_iff hfirst hc htext junk
  refine ⟨_, readResponse_eq hfirst argv junk, fun hload => ?_, fun hload hne hwhole => ?_,
    fun hload hzero => ?_⟩
  · rw [if_neg fun hboth => hload hboth.2]
    exact hcode
  · have hc' := hcode.mpr hwhole
    rw [if_neg fun hboth => hne (hc' ▸ hboth.1), hc']
  · subst hzero
    intro lead hlead d tail hd hbody
    -- what comes first of `0` has its only digit
    have hwhole : itoa 0 <+: bytes := by
      refine List.prefix_of_prefix_length_le (List.prefix_append _ _)
        (htext ▸ hfirst.isPrefix) ?_
      exact List.length_pos_iff.mpr hfirst.ne_nil
    rw [if_pos ⟨hcode.mpr hwhole, hload⟩, htext, hbody]
    exact loadResult_take hlead hd tail junk

/-- An agent that returns 5, in a response that comes byte by byte. -/
theorem response_copied_load :
    ∃ result, readResponse (Source.single (str "0\nreturn code: 5\n") .closed)
        [str "load", str "a.so", str "true"] [] =
        some (result, str "JVM response code = " ++
          (Source.single (str "0\nreturn code: 5\n") .closed).text ++ [newline]) ∧
      Coded [str "load", str "a.so", str "true"] 0 (str "return code: 5\n") (str "0") result := by
  have htext : (Source.single (str "0\nreturn code: 5\n") .closed).text =
      itoa 0 ++ newline :: str "return code: 5\n" := by decide
  exact response_copied (Source.took_single (by decide) 48 _ .closed) (by decide) htext _ []

theorem length_itoa_eq_one_iff {c : ℤ} : (itoa c).length = 1 ↔ 0 ≤ c ∧ c < 10 := by
  rcases Int.lt_or_le c 0 with hneg | hpos
  · have := List.length_pos_iff.mpr (decimal_ne_nil (-c).toNat)
    rw [itoa_of_neg hneg, List.length_cons]
    omega
  · rw [itoa_of_nonneg hpos]
    by_cases hlt : c.toNat < 10
    · rw [decimal_of_lt hlt, List.length_singleton]
      omega
    · have := List.length_pos_iff.mpr (decimal_ne_nil (c.toNat / 10))
      rw [decimal_of_ge (by omega), List.length_append, List.length_singleton]
      omega

/-- The codes that come back however the response is cut, to a command other than `load`, are
those of one digit. -/
theorem code_kept_iff {c : ℤ} (hc : InInt32 c) (body : GoString) {argv : List GoString}
    (hload : ¬ IsLoad argv) (junk : GoString) :
    (∀ fd : Source Byte, fd.text = itoa c ++ newline :: body →
        (readResponse fd argv junk).map Prod.fst = some c) ↔ 0 ≤ c ∧ c < 10 := by
  have hresult : ∀ {fd rest : Source Byte} {bytes : GoString}, Source.Took room fd bytes rest →
      fd.text = itoa c ++ newline :: body →
      ((readResponse fd argv junk).map Prod.fst = some c ↔ itoa c <+: bytes) := by
    intro fd rest bytes hfirst htext
    rw [readResponse_eq hfirst, if_neg fun hboth => hload hboth.2, Option.map_some,
      Option.some_inj, atoi_first_read_iff hfirst hc htext]
  rw [← length_itoa_eq_one_iff]
  constructor
  · intro h
    -- the bytes come one by one
    obtain ⟨b, digits, hb⟩ := List.exists_cons_of_ne_nil (itoa_ne_nil c)
    have htext : (Source.single (b :: (digits ++ newline :: body)) .closed).text =
        itoa c ++ newline :: body := by
      rw [Source.text_single, hb, List.cons_append]
    have hwhole := (hresult (Source.took_single (by decide) b _ .closed) htext).mp (h _ htext)
    have hle := hwhole.length_le
    have hpos := List.length_pos_iff.mpr (itoa_ne_nil c)
    rw [List.length_singleton] at hle
    omega
  · intro hlen fd htext
    have hne : fd.text ≠ [] := by
      rw [htext]
      exact List.append_ne_nil_of_left_ne_nil (itoa_ne_nil c) _
    obtain ⟨bytes, rest, hfirst⟩ := Source.exists_took room (by decide) hne
    refine (hresult hfirst htext).mpr (List.prefix_of_prefix_length_le (List.prefix_append _ _)
      (htext ▸ hfirst.isPrefix) ?_)
    rw [hlen]
    exact List.length_pos_iff.mpr hfirst.ne_nil

theorem code_kept_zero :
    (∀ fd : Source Byte, fd.text = itoa 0 ++ newline :: str "ok" →
        (readResponse fd [str "threaddump"] []).map Prod.fst = some 0) ↔
      (0 : ℤ) ≤ 0 ∧ (0 : ℤ) < 10 :=
  code_kept_iff (by decide) (str "ok") (by decide) []

/-! ## The whole attach -/

/-- The path in a `sockaddr_un`, cut to what fits. -/
def socketPath (tmpPath : GoString) (nspid : ℤ) : GoString :=
  (tmpPath ++ str "/.java_pid" ++ itoa nspid).take 107

/-- The JVM at the other end, and the socket it accepts, if it does. -/
structure Peer where
  connect : GoString → Bool
  takes : List (Option ℕ)
  response : Source Byte

structure Attached where
  ret : ℤ
  stdout : GoString
  wire : GoString
  world : World

/-- The part of `jattach_hotspot` behind the start of the listener. -/
def converse (jvm : Peer) (tmpPath : GoString) (nspid : ℤ) (argv : List GoString)
    (junk : GoString) (w : World) : Option Attached :=
  if !jvm.connect (socketPath tmpPath nspid) then some ⟨1, [], [], w⟩
  else
    let connected := str "Connected to remote JVM\n"
    let (ret, fd) := writeCommand ⟨[], jvm.takes⟩ argv
    if ret ≠ 0 then some ⟨1, connected, fd.wire, w⟩
    else (readResponse jvm.response argv junk).map fun (result, out) =>
      ⟨result, connected ++ out, fd.wire, w⟩

def jattachHotspot (h : Host) (jvm : Peer) (tmpPath : GoString) (pid nspid : ℤ)
    (argv : List GoString) (junk : GoString) (w : World) : Option Attached :=
  if h.listening 0 then converse jvm tmpPath nspid argv junk w
  else
    (startAttachMechanism h tmpPath pid nspid w).bind fun (started, w) =>
      if started ≠ 0 then some ⟨1, [], [], w⟩ else converse jvm tmpPath nspid argv junk w

/-- What a call prints: nothing of a response without the rest of it. -/
inductive Printed (jvm : Peer) (argv : List GoString) : Attached → Prop where
  | silent (w : World) : Printed jvm argv ⟨1, [], [], w⟩
  | connected (wire : GoString) (w : World) :
    Printed jvm argv ⟨1, str "Connected to remote JVM\n", wire, w⟩
  | answered (result : ℤ) (w : World) (sent : (writeCommand ⟨[], jvm.takes⟩ argv).1 = 0)
      (text : jvm.response.text ≠ []) :
    Printed jvm argv ⟨result, str "Connected to remote JVM\n" ++
      (str "JVM response code = " ++ jvm.response.text ++ [newline]),
      (writeCommand ⟨[], jvm.takes⟩ argv).2.wire, w⟩

theorem exists_printed (jvm : Peer) (tmpPath : GoString) (nspid : ℤ) (argv : List GoString)
    (junk : GoString) (w : World) :
    ∃ a, converse jvm tmpPath nspid argv junk w = some a ∧ a.world = w ∧ Printed jvm argv a := by
  unfold converse
  split
  · exact ⟨_, rfl, rfl, .silent w⟩
  · simp only
    split
    · exact ⟨_, rfl, rfl, .connected _ w⟩
    · rename_i hret
      by_cases htext : jvm.response.text = []
      · rw [readResponse_of_text_nil htext]
        simp only [Option.map_some, List.append_nil]
        exact ⟨_, rfl, rfl, .connected _ w⟩
      · obtain ⟨bytes, rest, hfirst⟩ := Source.exists_took room (by decide) htext
        rw [readResponse_eq hfirst]
        exact ⟨_, rfl, rfl, .answered _ w (not_not.mp hret) htext⟩

/-- What a call ends with, whatever the system and the JVM do. -/
structure Outcome (h : Host) (jvm : Peer) (tmpPath : GoString) (pid nspid : ℤ)
    (argv : List GoString) (w : World) (a : Attached) : Prop where
  /-- no trigger file stays behind, but where it could not be removed -/
  files : Undone h w a.world
  slept : a.world.slept ≤ w.slept + 6000000000
  /-- a JVM that listens gets no signal; to one that cannot be made to, nothing is said -/
  listener : (h.listening 0 = true ∧ a.world = w) ∨
    ∃ result, Started h tmpPath pid nspid w result a.world ∧
      (result ≠ 0 → a.ret = 1 ∧ a.stdout = [] ∧ a.wire = [])
  printed : Printed jvm argv a

theorem Started.slept_le {h : Host} {tmpPath : GoString} {pid nspid : ℤ} {w w' : World}
    {result : ℤ} (hs : Started h tmpPath pid nspid w result w') :
    w'.slept ≤ w.slept + 6000000000 := by
  rcases hs.signalled with ⟨-, -, hle, hwaited⟩ | ⟨-, -, -, hslept⟩
  · have := hwaited.slept_le
    omega
  · omega

/-- A JVM that listens on the second look. -/
def quickHost : Host where
  creat := fun _ => true
  close := true
  owner := fun _ => some 1000
  geteuid := 1000
  unlink := fun _ => true
  listening := fun slept => decide (60000000 ≤ slept)

def quickPeer : Peer where
  connect := fun _ => true
  takes := []
  response := Source.whole (str "0\nFull thread dump") .closed

end YcAgent.Attach.HotSpot
