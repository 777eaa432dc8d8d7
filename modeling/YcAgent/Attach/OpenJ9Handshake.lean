import YcAgent.Base.CString
import YcAgent.Base.Socket

/-!
# The handshake with an OpenJ9 JVM

`write_reply_info` and `accept_client` of `jattach_openj9.c`. The client leaves a key in a
file that only the JVM's user can read, and talks to whoever sends the key back.
-/
namespace YcAgent.Attach.OpenJ9

open Go hiding atoi
open CString Socket

/-- `%016llx` -/
def keyText (key : UInt64) : GoString := hex 16 key.toNat

/-- What `write_reply_info` writes. -/
def replyText (port : ℕ) (key : UInt64) : GoString :=
  keyText key ++ [newline] ++ decimal port ++ [newline]

def expected (key : UInt64) : GoString := str "ATTACH_CONNECTED " ++ keyText key ++ [space]

inductive Accepted where
  | prematurelyClosed
  | unexpectedResponse
  | client (fd : Source Byte)

/-- A turn of the loop that fills the buffer of 35 bytes. -/
def recvTurn (st : GoString × Source Byte) :
    Option (GoString × Source Byte) ⊕ (GoString × Source Byte) :=
  if st.1.length < 35 then
    match st.2.read (35 - st.1.length) with
    | (.data bytes, fd) => .inr (st.1 ++ bytes, fd)
    | (.ended _, _) => .inl none
  else .inl (some st)

/-- `accept_client`, from the accepted connection on. -/
def acceptClient (fd : Source Byte) (key : UInt64) : Option Accepted :=
  (Loop.run recvTurn (fd.text.length + 1) ([], fd)).map fun got =>
    match got with
    | none => .prematurelyClosed
    | some (buf, fd) =>
      if buf.take 34 = expected key then .client fd else .unexpectedResponse

/-! ## What is received -/

/-- What the loop gets of `text`: the first 35 bytes, or nothing if there are not so many. -/
structure Received (text : GoString) (got : Option (GoString × Source Byte)) : Prop where
  short : text.length < 35 → got = none
  full : 35 ≤ text.length → ∃ fd, got = some (text.take 35, fd) ∧ fd.text = text.drop 35

theorem run_recvTurn (fd : Source Byte) :
    ∃ got, Loop.run recvTurn (fd.text.length + 1) ([], fd) = some got ∧ Received fd.text got := by
  have hturn : ∀ st : GoString × Source Byte,
      (st.1 ++ st.2.text = fd.text ∧ st.1.length ≤ 35) →
      (∃ got, recvTurn st = .inl got ∧ Received fd.text got) ∨
        ∃ t, recvTurn st = .inr t ∧ (t.1 ++ t.2.text = fd.text ∧ t.1.length ≤ 35) ∧
          t.2.text.length < st.2.text.length := by
    rintro ⟨buf, u⟩ ⟨hsplit, hle⟩
    simp only at hsplit hle
    have hlen := congrArg List.length hsplit
    rw [List.length_append] at hlen
    by_cases hmore : buf.length < 35
    · have hroom : 0 < 35 - buf.length := by omega
      by_cases hu : u.text = []
      · refine Or.inl ⟨none, ?_, fun _ => rfl, fun hlong => ?_⟩
        · simp only [recvTurn, if_pos hmore, Source.read_of_text_nil _ hroom hu]
        · rw [hu, List.length_nil] at hlen
          omega
      · obtain ⟨bytes, v, hv⟩ := Source.exists_took _ hroom hu
        have := hv.length_le
        refine Or.inr ⟨(buf ++ bytes, v), ?_, ⟨?_, ?_⟩, hv.text_length_lt⟩
        · simp only [recvTurn, if_pos hmore, hv.read]
        · simp only [List.append_assoc, hv.text, hsplit]
        · simp only [List.length_append]
          omega
    · have hfull : buf.length = 35 := by omega
      refine Or.inl ⟨some (buf, u), ?_, fun hshort => ?_, fun _ => ⟨u, ?_, ?_⟩⟩
      · simp only [recvTurn, if_neg hmore]
      · omega
      · rw [← hsplit, ← hfull, List.take_left]
      · rw [← hsplit, ← hfull, List.drop_left]
  exact Loop.run_of_variant (fun st : GoString × Source Byte => st.2.text.length) hturn
    (s := ([], fd)) ⟨List.nil_append _, Nat.zero_le _⟩

theorem length_expected (key : UInt64) : (expected key).length = 34 := by
  simp only [expected, List.length_append, keyText, length_hex]
  rfl

theorem keyText_injective : Function.Injective keyText := by
  intro k l h
  have hk : k.toNat < 16 ^ 16 := k.toNat_lt
  have hl : l.toNat < 16 ^ 16 := l.toNat_lt
  exact UInt64.toNat_inj.mp (hex_injective hk hl h)

theorem take_eq_expected_iff (text : GoString) (key : UInt64) :
    (text.take 35).take 34 = expected key ↔ expected key <+: text := by
  have hmin : (text.take 35).take 34 = text.take 34 := by rw [List.take_take]; rfl
  rw [List.prefix_iff_eq_take, length_expected, hmin]
  exact eq_comm

/-- What `acceptClient` makes of what the peer sends, in whatever segments it comes: a client
whose first 34 bytes are right, with one more byte of it read. -/
structure Answer (fd : Source Byte) (key : UInt64) (a : Accepted) : Prop where
  closed : fd.text.length < 35 → a = .prematurelyClosed
  wrong : 35 ≤ fd.text.length → ¬ expected key <+: fd.text → a = .unexpectedResponse
  right : 35 ≤ fd.text.length → expected key <+: fd.text →
    ∃ fd', a = .client fd' ∧ fd'.text = fd.text.drop 35

theorem exists_answer (fd : Source Byte) (key : UInt64) :
    ∃ a, acceptClient fd key = some a ∧ Answer fd key a := by
  obtain ⟨got, hrun, hshort, hlong⟩ := run_recvTurn fd
  rw [acceptClient, hrun, Option.map_some]
  refine ⟨_, rfl, fun h => ?_, fun h hwrong => ?_, fun h hright => ?_⟩
  · rw [hshort h]
  · obtain ⟨fd', rfl, -⟩ := hlong h
    simp only [if_neg fun heq => hwrong ((take_eq_expected_iff _ _).mp heq)]
  · obtain ⟨fd', rfl, htext⟩ := hlong h
    simp only [if_pos ((take_eq_expected_iff _ _).mpr hright)]
    exact ⟨fd', rfl, htext⟩

/-! ## The key in the file -/

/-- The line that the JVM reads the key from. -/
def firstLine (reply : GoString) : GoString := reply.takeWhile (· ≠ newline)

theorem newline_not_mem_keyText (key : UInt64) : newline ∉ keyText key := by
  unfold keyText
  generalize key.toNat = n
  generalize 16 = w
  induction w generalizing n with
  | zero => exact List.not_mem_nil
  | succ w ih =>
    intro hmem
    rcases List.mem_append.mp hmem with hmem | hmem
    · exact ih _ hmem
    · have hall : ∀ d ∈ List.range 16, newline ≠ hexDigit d := by decide
      exact hall _ (List.mem_range.mpr (Nat.mod_lt n (by decide))) (List.mem_singleton.mp hmem)

theorem firstLine_replyText (port : ℕ) (key : UInt64) :
    firstLine (replyText port key) = keyText key := by
  have hkey : ∀ b ∈ keyText key, decide (b ≠ newline) = true := fun b hb =>
    decide_eq_true fun h => newline_not_mem_keyText key (h ▸ hb)
  rw [firstLine, replyText, List.append_assoc, List.append_assoc,
    List.takeWhile_append_of_pos hkey]
  exact List.append_nil _

theorem firstLine_injective {port port' : ℕ} {key key' : UInt64}
    (h : firstLine (replyText port key) = firstLine (replyText port' key')) : key = key' := by
  rw [firstLine_replyText, firstLine_replyText] at h
  exact keyText_injective h

/-- The peers that are accepted are those that send the first line of the reply file between
the words of the protocol, in whatever segments, and one byte more; what they send behind that
is left for the conversation. No reply file with another key has that line. -/
theorem accepted_iff (fd : Source Byte) (port : ℕ) (key : UInt64) (rest : GoString) :
    ((∃ fd', acceptClient fd key = some (.client fd') ∧ fd'.text = rest) ↔
      ∃ b, fd.text = str "ATTACH_CONNECTED " ++ firstLine (replyText port key) ++ [space] ++
        b :: rest) ∧
    ∀ port' key', firstLine (replyText port' key') = firstLine (replyText port key) →
      key' = key := by
  refine ⟨?_, fun port' key' h => firstLine_injective h⟩
  have hline : str "ATTACH_CONNECTED " ++ firstLine (replyText port key) ++ [space] =
      expected key := by
    rw [firstLine_replyText, expected]
  obtain ⟨a, ha, hanswer⟩ := exists_answer fd key
  rw [hline]
  constructor
  · rintro ⟨fd', hclient, hrest⟩
    rw [hclient] at ha
    obtain rfl := Option.some.inj ha
    by_cases hlong : 35 ≤ fd.text.length
    · by_cases hpre : expected key <+: fd.text
      · obtain ⟨fd'', heq, htext⟩ := hanswer.right hlong hpre
        obtain rfl := Accepted.client.inj heq
        obtain ⟨behind, hbehind⟩ := hpre
        rw [← hbehind, List.length_append, length_expected] at hlong
        have hlong' : 0 < behind.length := by omega
        obtain ⟨b, more, rfl⟩ := List.exists_cons_of_length_pos hlong'
        refine ⟨b, ?_⟩
        rw [← hbehind, List.drop_append, length_expected,
          List.drop_eq_nil_of_le (by rw [length_expected]; omega)] at htext
        rw [← hbehind, ← hrest, htext]
        rfl
      · exact absurd (hanswer.wrong hlong hpre) (by simp)
    · exact absurd (hanswer.closed (by omega)) (by simp)
  · rintro ⟨b, htext⟩
    have hlong : 35 ≤ fd.text.length := by
      rw [htext, List.length_append, length_expected, List.length_cons]
      omega
    obtain ⟨fd', rfl, hrest⟩ := hanswer.right hlong (htext ▸ List.prefix_append _ _)
    refine ⟨fd', ha, ?_⟩
    rw [hrest, htext, List.drop_append, length_expected,
      List.drop_eq_nil_of_le (by rw [length_expected]; omega)]
    rfl

end YcAgent.Attach.OpenJ9
