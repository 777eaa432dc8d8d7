import YcAgent.Attach.OpenJ9Escapes
import YcAgent.Base.Socket

/-!
# Talking to an OpenJ9 JVM

`jattach_openj9.c` behind the connection: the command is translated and sent whole, the
response is read up to a segment that ends with a NUL, and the result of a diagnostic
command is printed with its escapes undone.
-/
namespace YcAgent.Attach.OpenJ9

open Go hiding atoi
open CString Socket

/-! ## The command -/

def diagnostics (command argument : GoString) : GoString :=
  str "ATTACH_DIAGNOSTICS:" ++ command ++ str "," ++ argument

/-- The buffer for the command has 8192 bytes; `snprintf` keeps one for the NUL. -/
def commandRoom : ℕ := 8191

def translateCommand (argv : List GoString) : GoString :=
  let cmd := argument argv 0
  let text :=
    if cmd = str "load" ∧ 2 ≤ argv.length then
      (if 2 < argv.length ∧ argument argv 2 = str "true" then str "ATTACH_LOADAGENTPATH("
        else str "ATTACH_LOADAGENT(") ++
        argument argv 1 ++ str "," ++ argument argv 3 ++ str ")"
    else if cmd = str "jcmd" then
      diagnostics (if 1 < argv.length then argument argv 1 else str "help") (argument argv 2)
    else if cmd = str "threaddump" then diagnostics (str "Thread.print") (argument argv 1)
    else if cmd = str "dumpheap" then diagnostics (str "Dump.heap") (argument argv 1)
    else if cmd = str "inspectheap" then
      diagnostics (str "GC.class_histogram") (argument argv 1)
    else if cmd = str "datadump" then diagnostics (str "Dump.java") (argument argv 1)
    else if cmd = str "properties" then str "ATTACH_GETSYSTEMPROPERTIES"
    else if cmd = str "agentProperties" then str "ATTACH_GETAGENTPROPERTIES"
    else cmd
  text.take commandRoom

/-- A turn of the loop that writes what is not yet written; `cmd` ends with its NUL. -/
def writeTurn (cmd : GoString) (st : ℕ × Sink Byte) : (ℤ × Sink Byte) ⊕ (ℕ × Sink Byte) :=
  if st.1 < cmd.length then
    match st.2.write (cmd.drop st.1) with
    | (none, fd) => .inl (-1, fd)
    | (some bytes, fd) => if bytes = 0 then .inl (-1, fd) else .inr (st.1 + bytes, fd)
  else .inl (0, st.2)

def writeCommand (fd : Sink Byte) (cmd : GoString) : Option (ℤ × Sink Byte) :=
  Loop.run (writeTurn (cmd ++ [nul])) (cmd.length + 2) (0, fd)

/-- What a call of `writeCommand` has done. -/
structure Sent (fd : Sink Byte) (cmd : GoString) (ret : ℤ) (fd' : Sink Byte) : Prop where
  whole : ret = 0 → fd'.wire = fd.wire ++ (cmd ++ [nul])
  part : ret ≠ 0 → ret = -1 ∧ ∃ sent, sent <+: cmd ∧ fd'.wire = fd.wire ++ sent
  willing : fd.Willing → ret = 0 ∧ fd'.Willing

/-- The state of the loop after `off` bytes of `cmd` and its NUL. -/
structure Written (fd : Sink Byte) (cmd : GoString) (st : ℕ × Sink Byte) : Prop where
  le : st.1 ≤ cmd.length + 1
  wire : st.2.wire = fd.wire ++ (cmd ++ [nul]).take st.1
  willing : fd.Willing → st.2.Willing

theorem Written.part {fd : Sink Byte} {cmd : GoString} {st : ℕ × Sink Byte}
    (hst : Written fd cmd st) (hlt : st.1 < cmd.length + 1) :
    ∃ sent, sent <+: cmd ∧ st.2.wire = fd.wire ++ sent := by
  refine ⟨cmd.take st.1, List.take_prefix _ _, ?_⟩
  rw [hst.wire, List.take_append_of_le_length (by omega)]

theorem Written.turn {fd : Sink Byte} {cmd : GoString} {st : ℕ × Sink Byte}
    (hst : Written fd cmd st) :
    (∃ r, writeTurn (cmd ++ [nul]) st = .inl r ∧ Sent fd cmd r.1 r.2) ∨
      ∃ st', writeTurn (cmd ++ [nul]) st = .inr st' ∧ Written fd cmd st' ∧
        cmd.length + 1 - st'.1 < cmd.length + 1 - st.1 := by
  have hlen : (cmd ++ [nul]).length = cmd.length + 1 := by
    rw [List.length_append, List.length_singleton]
  have hle := hst.le
  by_cases hmore : st.1 < cmd.length + 1
  · have hne : (cmd ++ [nul]).drop st.1 ≠ [] := by
      rw [ne_eq, List.drop_eq_nil_iff]
      omega
    have hcond : st.1 < (cmd ++ [nul]).length := by omega
    have hrest : ((cmd ++ [nul]).drop st.1).length = cmd.length + 1 - st.1 := by
      rw [List.length_drop, hlen]
    obtain ⟨sent, hsent, hwire⟩ := hst.part hmore
    rcases st.2.write_cases ((cmd ++ [nul]).drop st.1) with
      ⟨u, hu, huwire, -⟩ | ⟨n, u, hu, hn, huwire, -, -⟩
    · refine Or.inl ⟨(-1, u), by simp only [writeTurn, if_pos hcond, hu], by simp,
        fun _ => ⟨rfl, sent, hsent, huwire.trans hwire⟩, fun hfd => ?_⟩
      obtain ⟨n, v, hv, -⟩ := Sink.exists_write_of_willing hne (hst.willing hfd)
      rw [hu] at hv
      cases hv
    · by_cases hzero : n = 0
      · subst hzero
        refine Or.inl ⟨(-1, u), by simp only [writeTurn, if_pos hcond, hu, if_true], by simp,
          fun _ => ⟨rfl, sent, hsent, ?_⟩, fun hfd => ?_⟩
        · rw [huwire, List.take_zero, List.append_nil, hwire]
        · obtain ⟨n, v, hv, hpos, -⟩ := Sink.exists_write_of_willing hne (hst.willing hfd)
          rw [hu] at hv
          have : 0 = n := Option.some.inj (Prod.mk.inj hv).1
          omega
      · rw [hrest] at hn
        refine Or.inr ⟨(st.1 + n, u), by simp only [writeTurn, if_pos hcond, hu, if_neg hzero],
          ⟨?_, ?_, fun hfd => ?_⟩, ?_⟩
        · show st.1 + n ≤ cmd.length + 1
          omega
        · rw [huwire, hst.wire, List.append_assoc, ← List.take_add]
        · obtain ⟨m, v, hv, -, -, -, hwilling⟩ :=
            Sink.exists_write_of_willing hne (hst.willing hfd)
          rw [hu] at hv
          exact (Prod.mk.inj hv).2 ▸ hwilling
        · show cmd.length + 1 - (st.1 + n) < _
          omega
  · have hcond : ¬ st.1 < (cmd ++ [nul]).length := by omega
    refine Or.inl ⟨(0, st.2), by simp only [writeTurn, if_neg hcond], fun _ => ?_, by simp,
      fun hfd => ⟨rfl, hst.willing hfd⟩⟩
    show st.2.wire = _
    rw [hst.wire, List.take_of_length_le (by omega)]

/-- A command is sent whole, in however many writes, or it is reported that it was not. -/
theorem exists_sent (fd : Sink Byte) (cmd : GoString) :
    ∃ ret fd', writeCommand fd cmd = some (ret, fd') ∧ Sent fd cmd ret fd' := by
  have hstart : Written fd cmd (0, fd) :=
    ⟨Nat.zero_le _, by rw [List.take_zero, List.append_nil], id⟩
  obtain ⟨⟨ret, fd'⟩, hr, hsent⟩ :=
    Loop.run_of_variant (fun st : ℕ × Sink Byte => cmd.length + 1 - st.1)
      (fun _ hst => Written.turn hst) hstart
  exact ⟨ret, fd', Loop.run_stable hr (by omega), hsent⟩

/-- The commands that a JVM of either kind runs as a diagnostic command. -/
def IsDiagnostic (argv : List GoString) : Prop :=
  argument argv 0 ∈
    [str "jcmd", str "threaddump", str "dumpheap", str "inspectheap", str "datadump"]

instance (argv : List GoString) : Decidable (IsDiagnostic argv) :=
  inferInstanceAs (Decidable (_ ∈ _))

theorem diagnostics_prefix (command argument : GoString) :
    str "ATTACH_DIAGNOSTICS:" <+: (diagnostics command argument).take commandRoom := by
  rw [List.prefix_take_iff]
  refine ⟨?_, by decide⟩
  rw [diagnostics, List.append_assoc, List.append_assoc]
  exact List.prefix_append _ _

theorem IsDiagnostic.translated {argv : List GoString} (h : IsDiagnostic argv) :
    hasPrefix (translateCommand argv) (str "ATTACH_DIAGNOSTICS:") = true := by
  rw [hasPrefix_iff]
  unfold translateCommand
  simp only [IsDiagnostic, List.mem_cons, List.not_mem_nil, or_false] at h
  rcases h with h | h | h | h | h
  all_goals
    rw [h]
    exact diagnostics_prefix _ _

/-! ## The response -/

inductive Reply where
  | unexpectedEOF
  | error
  | noMemory
  | received (buf : GoString) (fd : Source Byte)

structure Reading where
  size : ℕ
  buf : GoString
  fd : Source Byte

/-- A turn of the reading loop; `alloc` says which sizes can be allocated. -/
def readTurn (alloc : ℕ → Bool) (st : Reading) : Reply ⊕ Reading :=
  match st.fd.read (st.size - st.buf.length) with
  | (.ended .closed, _) => .inl .unexpectedEOF
  | (.ended .failed, _) => .inl .error
  | (.data bytes, fd) =>
    let buf := st.buf ++ bytes
    if buf.getLast? = some nul then .inl (.received buf fd)
    else if st.size ≤ buf.length then
      if alloc (st.size * 2) then .inr ⟨st.size * 2, buf, fd⟩ else .inl .noMemory
    else .inr ⟨st.size, buf, fd⟩

def receive (alloc : ℕ → Bool) (fd : Source Byte) : Option Reply :=
  if alloc 8192 then Loop.run (readTurn alloc) (fd.text.length + 1) ⟨8192, [], fd⟩
  else some .noMemory

/-- The buffer is never full when it is read into, and it is not more than twice as large as
what it holds. -/
structure Fits (whole : GoString) (st : Reading) : Prop where
  text : st.buf ++ st.fd.text = whole
  lt : st.buf.length < st.size
  size_le : st.size ≤ max 8192 (2 * st.buf.length)

theorem Fits.start (fd : Source Byte) : Fits fd.text ⟨8192, [], fd⟩ where
  text := List.nil_append fd.text
  lt := (by decide : 0 < 8192)
  size_le := Nat.le_max_left _ _

theorem Fits.room {whole : GoString} {st : Reading} (hst : Fits whole st) :
    0 < st.size - st.buf.length := by
  have := hst.lt
  omega

/-- The state behind a read that goes on. -/
theorem Fits.next {whole : GoString} {alloc : ℕ → Bool} {st st' : Reading} (hst : Fits whole st)
    (h : readTurn alloc st = .inr st') : Fits whole st' := by
  by_cases htext : st.fd.text = []
  · simp only [readTurn, Source.read_of_text_nil _ hst.room htext] at h
    cases he : st.fd.ending <;> simp only [he] at h <;> cases h
  · obtain ⟨bytes, fd, htook⟩ := Source.exists_took _ hst.room htext
    have hle := htook.length_le
    have hpos := List.length_pos_iff.mpr htook.ne_nil
    have hsize := hst.size_le
    have hlt := hst.lt
    have hwhole : (st.buf ++ bytes) ++ fd.text = whole := by
      rw [List.append_assoc, htook.text, hst.text]
    have hlen : (st.buf ++ bytes).length = st.buf.length + bytes.length := List.length_append
    simp only [readTurn, htook.read] at h
    split at h
    · cases h
    · split at h
      · split at h
        · obtain rfl := Sum.inr.inj h
          refine ⟨hwhole, ?_, ?_⟩
          · show (st.buf ++ bytes).length < st.size * 2
            omega
          · show st.size * 2 ≤ max 8192 (2 * (st.buf ++ bytes).length)
            omega
        · cases h
      · obtain rfl := Sum.inr.inj h
        refine ⟨hwhole, ?_, ?_⟩
        · show (st.buf ++ bytes).length < st.size
          omega
        · show st.size ≤ max 8192 (2 * (st.buf ++ bytes).length)
          omega

/-- Every read of a response has room in the buffer, which grows with the response. -/
theorem reads_inside (alloc : ℕ → Bool) (fd : Source Byte) {st : Reading}
    (h : Loop.Reaches (readTurn alloc) ⟨8192, [], fd⟩ st) :
    st.buf.length < st.size ∧ st.size ≤ max 8192 (2 * fd.text.length) ∧
      st.buf ++ st.fd.text = fd.text := by
  have hfits := h.invariant (fun _ _ hst hnext => hst.next hnext) (Fits.start fd)
  refine ⟨hfits.lt, ?_, hfits.text⟩
  have hlen := congrArg List.length hfits.text
  rw [List.length_append] at hlen
  have := hfits.size_le
  omega

/-- A response longer than the first buffer. -/
def longResponse : Source Byte := Source.whole (List.replicate 8192 65 ++ [65]) .closed

theorem readTurn_longResponse :
    readTurn (fun _ => true) ⟨8192, [], longResponse⟩ =
      .inr ⟨16384, List.replicate 8192 65, Source.whole [65] .closed⟩ := by
  have hread : longResponse.read 8192 =
      (.data (List.replicate 8192 65), Source.whole [65] .closed) :=
    Source.read_whole_append (by decide) List.length_replicate (by decide) .closed
  have hlast : (List.replicate 8192 (65 : Byte)).getLast? ≠ some nul := by
    rw [List.getLast?_replicate]
    decide
  simp only [readTurn, List.length_nil, Nat.sub_zero, hread, List.nil_append, if_neg hlast,
    List.length_replicate, Nat.le_refl, if_true]

/-- Behind the turn that has filled the first buffer. -/
theorem reads_inside_grown :
    (List.replicate 8192 (65 : Byte)).length < 16384 ∧
      16384 ≤ max 8192 (2 * longResponse.text.length) ∧
      List.replicate 8192 65 ++ (Source.whole [65] .closed).text = longResponse.text :=
  reads_inside (fun _ => true) longResponse (.next .refl readTurn_longResponse)

/-- The rest `s` of a response, in front of what the JVM sends later. -/
structure Awaiting (text : GoString) (later : Source Byte) (st : Reading) (s : Source Byte) :
    Prop where
  fd : st.fd = s.append later
  text : st.buf ++ s.text = text ++ [nul]
  ne_nil : s.text ≠ []

/-- What was received of a text that ends with its only NUL ends with it if all was. -/
theorem getLast?_eq_nul_iff {text buf rest : GoString} (hnul : nul ∉ text)
    (h : buf ++ rest = text ++ [nul]) : buf.getLast? = some nul ↔ rest = [] := by
  constructor
  · intro hlast
    by_contra hrest
    obtain ⟨init, last, rfl⟩ := (List.eq_nil_or_concat rest).resolve_left hrest
    rw [List.concat_eq_append, ← List.append_assoc] at h
    obtain ⟨htext, -⟩ := List.append_inj' h rfl
    exact hnul (htext ▸ List.mem_append_left init (List.mem_of_getLast? hlast))
  · rintro rfl
    rw [List.append_nil] at h
    rw [h, List.getLast?_concat]

theorem Awaiting.turn {alloc : ℕ → Bool} {text whole : GoString} {later s : Source Byte}
    {st : Reading} (hst : Awaiting text later st s) (hfits : Fits whole st) (hnul : nul ∉ text)
    (halloc : ∀ n ≤ max 8192 (2 * (text.length + 1)), alloc n = true) :
    readTurn alloc st = .inl (.received (text ++ [nul]) later) ∨
      ∃ st' s', readTurn alloc st = .inr st' ∧ Awaiting text later st' s' ∧
        st'.fd.text.length < st.fd.text.length := by
  obtain ⟨bytes, s', htook⟩ := Source.exists_took _ hfits.room hst.ne_nil
  have hboth := hst.fd ▸ htook.append later
  have hless := hboth.text_length_lt
  have hwhole : (st.buf ++ bytes) ++ s'.text = text ++ [nul] := by
    rw [List.append_assoc, htook.text, hst.text]
  have hlast := getLast?_eq_nul_iff hnul hwhole
  simp only [readTurn, hboth.read]
  by_cases hdone : s'.text = []
  · left
    rw [if_pos (hlast.mpr hdone), Source.append_of_text_nil hdone]
    rw [hdone, List.append_nil] at hwhole
    rw [hwhole]
  · right
    rw [if_neg fun h => hdone (hlast.mp h)]
    split
    · rename_i hfull
      have hlen := congrArg List.length hwhole
      have hlt := hfits.lt
      have hle := htook.length_le
      simp only [List.length_append, List.length_singleton] at hlen hfull
      rw [if_pos (halloc _ (by omega))]
      exact ⟨_, s', rfl, ⟨rfl, hwhole, hdone⟩, hless⟩
    · exact ⟨_, s', rfl, ⟨rfl, hwhole, hdone⟩, hless⟩

/-- A response that ends with its only NUL is received whole, however it is cut, and nothing
behind it is read. -/
theorem receive_whole {alloc : ℕ → Bool} {text : GoString} (hnul : nul ∉ text)
    (halloc : ∀ n ≤ max 8192 (2 * (text.length + 1)), alloc n = true) {first : Source Byte}
    (hfirst : first.text = text ++ [nul]) (later : Source Byte) :
    receive alloc (first.append later) = some (.received (text ++ [nul]) later) := by
  have hne : first.text ≠ [] := by
    rw [hfirst]
    exact List.append_ne_nil_of_right_ne_nil text (by decide)
  have hturn : ∀ st : Reading,
      (Fits (first.append later).text st ∧ ∃ s, Awaiting text later st s) →
      (∃ r, readTurn alloc st = .inl r ∧ r = .received (text ++ [nul]) later) ∨
        ∃ t, readTurn alloc st = .inr t ∧
          (Fits (first.append later).text t ∧ ∃ s, Awaiting text later t s) ∧
            t.fd.text.length < st.fd.text.length := by
    rintro st ⟨hfits, s, hst⟩
    rcases hst.turn hfits hnul halloc with hdone | ⟨st', s', hnext, hst', hless⟩
    · exact Or.inl ⟨_, hdone, rfl⟩
    · exact Or.inr ⟨st', hnext, ⟨hfits.next hnext, s', hst'⟩, hless⟩
  obtain ⟨r, hr, hreceived⟩ := Loop.run_of_variant (fun st : Reading => st.fd.text.length) hturn
    ⟨Fits.start (first.append later), first, rfl, hfirst, hne⟩
  rw [receive, if_pos (halloc 8192 (Nat.le_max_left _ _)), hr, hreceived]

/-! ## What the response means -/

/-- `strstr`: the memory from the first place on where the string holds `needle`. -/
def strstr (mem needle : GoString) : Option GoString :=
  let n := index (string mem) needle
  if 0 ≤ n then some (mem.drop n.toNat) else none

def resultKey : GoString := str "openj9_diagnostics.string_result="

/-- The whole buffer, its last byte made the end of a line. -/
def mirrored (buf : GoString) : GoString := buf.dropLast ++ [newline]

/-- The result and the output for a response; `none` where memory is read that it does not
hold. -/
def interpret (cmd buf : GoString) : Option (ℤ × GoString) :=
  if hasPrefix cmd (str "ATTACH_LOADAGENT") then
    let result :=
      if hasPrefix buf (str "ATTACH_ACK") then 0
      else if hasPrefix buf (str "ATTACH_ERR AgentInitializationException") then atoi (buf.drop 39)
      else -1
    some (result, mirrored buf)
  else if hasPrefix cmd (str "ATTACH_DIAGNOSTICS:") then
    match strstr buf resultKey with
    | some p => (printUnescaped (p.drop 33)).map fun out => (0, out)
    | none => some (0, mirrored buf)
  else some (0, mirrored buf)

def readResponse (alloc : ℕ → Bool) (fd : Source Byte) (cmd : GoString) :
    Option (ℤ × GoString × Source Byte) :=
  (receive alloc fd).bind fun reply =>
    match reply with
    | .received buf fd => (interpret cmd buf).map fun (result, out) => (result, out, fd)
    | _ => some (1, [], fd)

/-- The first place of a text is found where there is none that begins before it. -/
theorem indexFrom_append {sub pre : GoString} (hsub : sub ≠ [])
    (h : ¬ sub <:+: pre ++ sub.dropLast) (n : ℕ) (rest : GoString) :
    indexFrom sub n (pre ++ (sub ++ rest)) = n + pre.length := by
  induction pre generalizing n with
  | nil =>
    cases sub with
    | nil => exact absurd rfl hsub
    | cons b sub =>
      have hpre : (b :: sub).isPrefixOf (b :: (sub ++ rest)) = true :=
        List.isPrefixOf_iff_prefix.mpr (List.prefix_append (b :: sub) rest)
      simp only [List.nil_append, List.cons_append, indexFrom, hpre, if_true, List.length_nil]
      omega
  | cons c pre ih =>
    have hnot : ¬ sub <+: c :: (pre ++ (sub ++ rest)) := by
      intro hpre
      apply h
      have hshort : c :: pre ++ sub.dropLast <+: c :: (pre ++ (sub ++ rest)) := by
        rw [List.cons_append]
        exact List.cons_prefix_cons.mpr ⟨rfl, List.prefix_append_right_inj pre |>.mpr
          ((List.dropLast_prefix sub).trans (List.prefix_append sub rest))⟩
      have hlen : sub.length ≤ (c :: pre ++ sub.dropLast).length := by
        rw [List.length_append, List.length_cons, List.length_dropLast]
        omega
      exact (List.prefix_of_prefix_length_le hpre hshort hlen).isInfix
    have hrest : ¬ sub <:+: pre ++ sub.dropLast := fun hin =>
      h (hin.trans (List.suffix_cons c _).isInfix)
    rw [List.cons_append, indexFrom, if_neg (by rwa [List.isPrefixOf_iff_prefix]), ih hrest,
      List.length_cons]
    omega

theorem strstr_append {needle pre : GoString} (hneedle : needle ≠ [])
    (h : ¬ needle <:+: pre ++ needle.dropLast) {rest : GoString}
    (hnul : nul ∉ pre ++ (needle ++ rest)) (behind : GoString) :
    strstr (pre ++ (needle ++ rest) ++ nul :: behind) needle =
      some (needle ++ rest ++ nul :: behind) := by
  have hindex : index (string (pre ++ (needle ++ rest) ++ nul :: behind)) needle =
      (pre.length : ℤ) := by
    rw [string_append_nul hnul, index, indexFrom_append hneedle h]
    omega
  rw [strstr, hindex]
  simp only [Int.natCast_nonneg, if_true, Int.toNat_natCast]
  rw [List.append_assoc pre, List.drop_left]

/-- The lines beside that of the escaped result in the response to a diagnostic command. -/
structure Diagnosed (pre post : GoString) : Prop where
  nul_pre : nul ∉ pre
  nul_post : nul ∉ post
  first : ¬ resultKey <:+: pre ++ resultKey.dropLast

/-- The response with the result `text`. -/
def diagnosed (pre : GoString) (text : List Escape) (post : GoString) : GoString :=
  pre ++ (resultKey ++ (escapedLine text ++ newline :: post))

theorem Diagnosed.nul_not_mem {pre post : GoString} (h : Diagnosed pre post)
    (text : List Escape) : nul ∉ diagnosed pre text post := by
  unfold diagnosed
  simp only [List.mem_append, List.mem_cons, not_or]
  exact ⟨h.nul_pre, by decide, (not_mem_escapedLine text).1, by decide, h.nul_post⟩

theorem Diagnosed.interpret {pre post cmd : GoString} (h : Diagnosed pre post)
    (text : List Escape) (hcmd : hasPrefix cmd (str "ATTACH_DIAGNOSTICS:")) :
    interpret cmd (diagnosed pre text post ++ [nul]) =
      some (0, printedText text ++ [newline]) := by
  have hload : hasPrefix cmd (str "ATTACH_LOADAGENT") = false := by
    rw [Bool.eq_false_iff]
    intro hboth
    rcases List.prefix_or_prefix_of_prefix ((hasPrefix_iff _ _).mp hboth)
      ((hasPrefix_iff _ _).mp hcmd) with hpre | hpre
    · exact absurd hpre (by decide)
    · exact absurd hpre (by decide)
  have hfound : strstr (diagnosed pre text post ++ [nul]) resultKey =
      some (resultKey ++ (escapedLine text ++ newline :: post) ++ [nul]) :=
    strstr_append (by decide) h.first (h.nul_not_mem text) []
  have hdrop : (resultKey ++ (escapedLine text ++ newline :: post) ++ [nul]).drop 33 =
      escapedLine text ++ newline :: (post ++ [nul]) := by
    rw [List.append_assoc, List.drop_left' (by decide), List.append_assoc, List.cons_append]
  rw [OpenJ9.interpret, hload, hcmd, hfound]
  simp only [Bool.false_eq_true, if_false, if_true, hdrop]
  rw [(printUnescaped_escapedLine text (post ++ [nul])).2, Option.map_some]

/-! ## The end of the conversation -/

/-- Reads that are thrown away, until one ends with a NUL. -/
def detachTurn (fd : Source Byte) : Source Byte ⊕ Source Byte :=
  match fd.read 256 with
  | (.data bytes, fd) => if bytes.getLast? = some nul then .inl fd else .inr fd
  | (.ended _, fd) => .inl fd

def detach (out : Sink Byte) (fd : Source Byte) : Option (Sink Byte × Source Byte) :=
  (writeCommand out (str "ATTACH_DETACHED")).bind fun (ret, out) =>
    if ret ≠ 0 then some (out, fd)
    else (Loop.run detachTurn (fd.text.length + 1) fd).map fun fd => (out, fd)

structure Conversation where
  ret : ℤ
  stdout : GoString
  wire : GoString

/-- `jattach_openj9` from the accepted connection on. -/
def converse (alloc : ℕ → Bool) (takes : List (Option ℕ)) (response : Source Byte)
    (argv : List GoString) : Option Conversation := do
  let connected := str "Connected to remote JVM\n"
  let cmd := translateCommand argv
  let (ret, out) ← writeCommand ⟨[], takes⟩ cmd
  if ret ≠ 0 then pure ⟨1, connected, out.wire⟩
  else do
    let (result, text, fd) ← readResponse alloc response cmd
    if result ≠ 1 then do
      let (out, _) ← detach out fd
      pure ⟨result, connected ++ text, out.wire⟩
    else pure ⟨result, connected ++ text, out.wire⟩

theorem exists_detached (fd : Source Byte) :
    ∃ fd', Loop.run detachTurn (fd.text.length + 1) fd = some fd' := by
  have hturn : ∀ s : Source Byte, True → (∃ r, detachTurn s = .inl r ∧ True) ∨
      ∃ t, detachTurn s = .inr t ∧ True ∧ t.text.length < s.text.length := by
    intro s _
    by_cases hs : s.text = []
    · refine Or.inl ⟨s, ?_, trivial⟩
      simp only [detachTurn, Source.read_of_text_nil 256 (by decide) hs]
    · obtain ⟨bytes, t, ht⟩ := Source.exists_took 256 (by decide) hs
      simp only [detachTurn, ht.read]
      split
      · exact Or.inl ⟨t, rfl, trivial⟩
      · exact Or.inr ⟨t, rfl, trivial, ht.text_length_lt⟩
  obtain ⟨fd', hrun, -⟩ :=
    Loop.run_of_variant (fun s : Source Byte => s.text.length) hturn (s := fd) trivial
  exact ⟨fd', hrun⟩

theorem exists_detach {out : Sink Byte} (hout : out.Willing) (fd : Source Byte) :
    ∃ out' fd', detach out fd = some (out', fd') ∧
      out'.wire = out.wire ++ (str "ATTACH_DETACHED" ++ [nul]) := by
  obtain ⟨ret, out', hrun, hsent⟩ := exists_sent out (str "ATTACH_DETACHED")
  obtain ⟨rfl, -⟩ := hsent.willing hout
  obtain ⟨fd', hfd'⟩ := exists_detached fd
  refine ⟨out', fd', ?_, hsent.whole rfl⟩
  simp only [detach, hrun, Option.bind_some, ne_eq, not_true_eq_false, if_false, hfd',
    Option.map_some]

/-- However the JVM's response is cut, and however the client's writes are, a diagnostic command
arrives whole, its result is printed, and the client detaches. The result is printed as it was
before it was escaped if and only if no character of it is given by its number. -/
theorem diagnostic_printed {argv : List GoString} (hargv : IsDiagnostic argv)
    {takes : List (Option ℕ)} (htakes : ∀ t ∈ takes, ∃ n ∈ t, 0 < n)
    {pre post : GoString} (h : Diagnosed pre post) (text : List Escape) {alloc : ℕ → Bool}
    (halloc : ∀ n ≤ max 8192 (2 * ((diagnosed pre text post).length + 1)), alloc n = true)
    {first : Source Byte} (hfirst : first.text = diagnosed pre text post ++ [nul])
    (later : Source Byte) :
    converse alloc takes (first.append later) argv = some
        { ret := 0
          stdout := str "Connected to remote JVM\n" ++ (printedText text ++ [newline])
          wire := translateCommand argv ++ [nul] ++ (str "ATTACH_DETACHED" ++ [nul]) } ∧
      ((printedText text).map UInt8.toNat = text.map Escape.char ↔
        ∀ e ∈ text, e.isUnicode = false) := by
  obtain ⟨ret, out, hrun, hsent⟩ := exists_sent ⟨[], takes⟩ (translateCommand argv)
  obtain ⟨rfl, hout⟩ := hsent.willing htakes
  have hwire := hsent.whole rfl
  rw [List.nil_append] at hwire
  obtain ⟨out', fd', hdetach, hwire'⟩ := exists_detach hout later
  have hresponse : readResponse alloc (first.append later) (translateCommand argv) =
      some (0, printedText text ++ [newline], later) := by
    rw [readResponse, receive_whole (h.nul_not_mem text) halloc hfirst later, Option.bind_some]
    simp only [h.interpret text hargv.translated, Option.map_some]
  have hzero : (0 : ℤ) ≠ 1 := by decide
  refine ⟨?_, map_toNat_printedText_iff text⟩
  simp only [converse, hrun, hresponse, hdetach, Option.bind_eq_bind, Option.bind_some,
    ne_eq, not_true_eq_false, if_false, if_pos hzero, Option.pure_def, hwire', hwire]

theorem diagnosed_two : Diagnosed (str "#Thu\n") [] where
  nul_pre := by decide
  nul_post := by decide
  first := by decide

/-- Two lines of a result, with a character given by its number. -/
def twoLines : List Escape :=
  [.plain 97 (by decide), .quoted 58 (by decide), .lineFeed,
    .unicode (str "00E9") (by decide) (by decide)]

/-- They come byte by byte. -/
theorem diagnostic_printed_two :
    converse (fun _ => true) [some 5, some 60]
        ((Source.single (diagnosed (str "#Thu\n") twoLines [] ++ [nul]) .closed).append
          (Source.whole (str "ATTACH_DETACHED\x00") .closed)) [str "threaddump"] = some
        { ret := 0
          stdout := str "Connected to remote JVM\n" ++ (printedText twoLines ++ [newline])
          wire := translateCommand [str "threaddump"] ++ [nul] ++
            (str "ATTACH_DETACHED" ++ [nul]) } ∧
      ((printedText twoLines).map UInt8.toNat = twoLines.map Escape.char ↔
        ∀ e ∈ twoLines, e.isUnicode = false) :=
  diagnostic_printed (by decide) (by decide) diagnosed_two twoLines (fun _ _ => rfl)
    (Source.text_single _ .closed) _

end YcAgent.Attach.OpenJ9
