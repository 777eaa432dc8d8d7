import YcAgent.Base.CString
import YcAgent.Base.Loop
import YcAgent.Base.Url

/-!
# Escapes in the result of a diagnostic command

`print_unescaped` of `jattach_openj9.c`. An OpenJ9 JVM sends the result in the format of
Java properties: one line, in which a backslash and what is behind it stand for a character that
the line cannot hold. All of the format is undone but the characters given by their number.
-/
namespace YcAgent.Attach.OpenJ9

open Go hiding atoi
open CString

def backslash : Byte := 92

/-- The byte written for an escape, by the byte behind the backslash. -/
def unescapeByte (c : Byte) : Byte :=
  if c = nul then backslash
  else if c = 102 then 12
  else if c = 110 then 10
  else if c = 114 then 13
  else if c = 116 then 9
  else c

/-- `strchr` for a byte that is not NUL: `none` reads behind the memory. -/
def strchr (c : Byte) : GoString → Option (Option ℕ)
  | [] => none
  | b :: mem =>
    if b = c then some (some 0)
    else if b = nul then some none
    else (strchr c mem).map fun p => p.map (· + 1)

/-- The memory with the end of its first line as the end of the string. -/
def cutLine (mem : GoString) : Option GoString :=
  (strchr newline mem).map fun p =>
    match p with
    | none => mem
    | some n => mem.set n nul

/-- A turn of the printing loop: what was written, and the memory from `str` on. -/
def printTurn (st : GoString × GoString) : Option GoString ⊕ (GoString × GoString) :=
  match strchr backslash st.2 with
  | none => .inl none
  | some none => .inl (some (st.1 ++ string st.2))
  | some (some n) =>
    match st.2[n + 1]? with
    | none => .inl none
    | some c => .inr (st.1 ++ (st.2.take n ++ [unescapeByte c]), st.2.drop (n + 2))

/-- What is printed, where no read goes behind the memory. -/
def printUnescaped (mem : GoString) : Option GoString := do
  let mem ← cutLine mem
  let out ← Loop.run printTurn (mem.length + 1) ([], mem)
  (· ++ [newline]) <$> out

/-! ## The loop, byte by byte -/

def unescape : GoString → Option GoString
  | [] => none
  | b :: mem =>
    if b = nul then some []
    else if b = backslash then
      match mem with
      | [] => none
      | c :: mem => (unescape mem).map (unescapeByte c :: ·)
    else (unescape mem).map (b :: ·)

@[simp] theorem unescape_nul (mem : GoString) : unescape (nul :: mem) = some [] := by
  cases mem <;> rfl

@[simp] theorem unescape_backslash (c : Byte) (mem : GoString) :
    unescape (backslash :: c :: mem) = (unescape mem).map (unescapeByte c :: ·) := rfl

theorem unescape_cons {b : Byte} (hb : b ≠ backslash) (hnul : b ≠ nul) (mem : GoString) :
    unescape (b :: mem) = (unescape mem).map (b :: ·) := by
  cases mem <;> simp only [unescape, if_neg hnul, if_neg hb]

theorem strchr_cons_of_ne {b c : Byte} (hc : b ≠ c) (hnul : b ≠ nul) (mem : GoString) :
    strchr c (b :: mem) = (strchr c mem).map fun p => p.map (· + 1) := by
  rw [strchr, if_neg hc, if_neg hnul]

/-- A byte that is neither the end nor an escape is written as it is. -/
theorem printTurn_cons {b : Byte} (hb : b ≠ backslash) (hnul : b ≠ nul) (out mem : GoString) :
    printTurn (out, b :: mem) = printTurn (out ++ [b], mem) := by
  simp only [printTurn, strchr_cons_of_ne hb hnul]
  cases strchr backslash mem with
  | none => rfl
  | some p =>
    cases p with
    | none =>
      have hstring : string (b :: mem) = b :: string mem :=
        List.takeWhile_cons_of_pos (by simpa using hnul)
      simp only [Option.map_some, Option.map_none, hstring, List.append_assoc,
        List.singleton_append]
    | some n =>
      simp only [Option.map_some, List.getElem?_cons_succ, List.take_succ_cons,
        List.drop_succ_cons, List.append_assoc, List.cons_append, List.nil_append]

theorem run_printTurn (out mem : GoString) :
    Loop.run printTurn (mem.length + 1) (out, mem) = some ((unescape mem).map (out ++ ·)) := by
  induction hn : mem.length using Nat.strongRecOn generalizing out mem with
  | ind n ih =>
    cases mem with
    | nil => rfl
    | cons b mem =>
      rw [List.length_cons] at hn
      by_cases hnul : b = nul
      · subst hnul
        have hturn : printTurn (out, nul :: mem) = .inl (some (out ++ [])) := rfl
        rw [Loop.run]
        simp only [hturn, unescape_nul, Option.map_some]
      · by_cases hb : b = backslash
        · subst hb
          cases mem with
          | nil => rfl
          | cons c mem =>
            rw [List.length_cons] at hn
            have hturn : printTurn (out, backslash :: c :: mem) =
                .inr (out ++ [unescapeByte c], mem) := rfl
            have hrest := ih mem.length (by omega) (out ++ [unescapeByte c]) mem rfl
            rw [Loop.run]
            simp only [hturn]
            rw [Loop.run_stable hrest (by omega), unescape_backslash, Option.map_map]
            simp only [Function.comp_def, List.append_assoc, List.singleton_append]
        · have hrest := ih mem.length (by omega) (out ++ [b]) mem rfl
          have hmore := Loop.run_stable hrest (show mem.length + 1 ≤ n + 1 by omega)
          rw [Loop.run, printTurn_cons hb hnul]
          rw [Loop.run] at hmore
          rw [hmore, unescape_cons hb hnul, Option.map_map]
          simp only [Function.comp_def, List.append_assoc, List.singleton_append]

theorem printUnescaped_eq (mem : GoString) :
    printUnescaped mem =
      ((cutLine mem).bind unescape).map (· ++ [newline]) := by
  unfold printUnescaped
  cases cutLine mem with
  | none => rfl
  | some mem =>
    simp only [Option.bind_eq_bind, Option.bind_some, run_printTurn, List.nil_append,
      Option.map_id']
    rfl

/-! ## The format of Java properties -/

/-- A character of a value, as the format writes it in a line: as its own byte, as a letter or
another byte behind a backslash, or as its number in four hexadecimal digits. -/
inductive Escape where
  | plain (b : Byte) (h : b ∉ [nul, newline, 13, backslash])
  | formFeed
  | lineFeed
  | carriageReturn
  | tab
  | quoted (c : Byte) (h : c ∉ [nul, newline, 13, 102, 110, 114, 116, 117])
  | unicode (digits : GoString) (hlength : digits.length = 4)
      (hhex : ∀ d ∈ digits, (Go.Url.unhex d).isSome)

def Escape.line : Escape → GoString
  | .plain b _ => [b]
  | .formFeed => [backslash, 102]
  | .lineFeed => [backslash, 110]
  | .carriageReturn => [backslash, 114]
  | .tab => [backslash, 116]
  | .quoted c _ => [backslash, c]
  | .unicode digits _ _ => backslash :: 117 :: digits

/-- The number of the character. -/
def Escape.char : Escape → ℕ
  | .plain b _ => b.toNat
  | .formFeed => 12
  | .lineFeed => 10
  | .carriageReturn => 13
  | .tab => 9
  | .quoted c _ => c.toNat
  | .unicode digits _ _ =>
    digits.foldl (fun n d => 16 * n + ((Go.Url.unhex d).map UInt8.toNat).getD 0) 0

def Escape.isUnicode : Escape → Bool
  | .unicode _ _ _ => true
  | _ => false

/-- The line for a text. -/
def escapedLine (text : List Escape) : GoString := text.flatMap Escape.line

/-- What is printed for a character: the character, or else the `u` and the digits. -/
def Escape.printed : Escape → GoString
  | .unicode digits _ _ => 117 :: digits
  | e => [UInt8.ofNat e.char]

def printedText (text : List Escape) : GoString := text.flatMap Escape.printed

theorem Escape.length_printed (e : Escape) :
    e.printed.length = if e.isUnicode then 5 else 1 := by
  cases e with
  | unicode digits hlength hhex => exact congrArg (· + 1) hlength
  | _ => rfl

theorem Escape.map_toNat_printed {e : Escape} (h : e.isUnicode = false) :
    e.printed.map UInt8.toNat = [e.char] := by
  cases e with
  | unicode digits hlength hhex => cases h
  | plain b hb => exact congrArg (fun b : Byte => [b.toNat]) UInt8.ofNat_toNat
  | quoted c hc => exact congrArg (fun b : Byte => [b.toNat]) UInt8.ofNat_toNat
  | _ => rfl

theorem length_printedText (text : List Escape) :
    (printedText text).length = text.length + 4 * text.countP Escape.isUnicode := by
  induction text with
  | nil => rfl
  | cons e text ih =>
    rw [printedText, List.flatMap_cons, List.length_append, e.length_printed,
      List.countP_cons, List.length_cons]
    rw [printedText] at ih
    split <;> omega

/-- A text is printed character by character if none of them is written by its number. -/
theorem map_toNat_printedText_iff (text : List Escape) :
    (printedText text).map UInt8.toNat = text.map Escape.char ↔
      ∀ e ∈ text, e.isUnicode = false := by
  constructor
  · intro h
    have hlength := congrArg List.length h
    rw [List.length_map, List.length_map, length_printedText] at hlength
    have hnone : text.countP Escape.isUnicode = 0 := by omega
    intro e he
    exact Bool.eq_false_iff.mpr (List.countP_eq_zero.mp hnone e he)
  · intro h
    induction text with
    | nil => rfl
    | cons e text ih =>
      have hrest := ih fun e he => h e (List.mem_cons_of_mem _ he)
      rw [printedText] at hrest ⊢
      rw [List.flatMap_cons, List.map_append, hrest,
        Escape.map_toNat_printed (h e List.mem_cons_self), List.map_cons, List.singleton_append]

/-- There is a line without such numbers for every text of bytes. -/
theorem exists_escapedLine {t : GoString} (ht : nul ∉ t) :
    ∃ text : List Escape, text.map Escape.char = t.map UInt8.toNat ∧
      ∀ e ∈ text, e.isUnicode = false := by
  induction t with
  | nil => exact ⟨[], rfl, nofun⟩
  | cons b t ih =>
    obtain ⟨text, htext, hplain⟩ := ih (List.not_mem_of_not_mem_cons ht)
    have hnul : b ≠ nul := (List.ne_of_not_mem_cons ht).symm
    have hone : ∃ e : Escape, e.char = b.toNat ∧ e.isUnicode = false := by
      by_cases hline : b = newline
      · exact ⟨.lineFeed, by rw [hline]; rfl, rfl⟩
      · by_cases hreturn : b = 13
        · exact ⟨.carriageReturn, by rw [hreturn]; rfl, rfl⟩
        · by_cases hb : b = backslash
          · exact ⟨.quoted backslash (by decide), by rw [hb]; rfl, rfl⟩
          · have hfree : b ∉ [nul, newline, 13, backslash] := by
              simp only [List.mem_cons, List.not_mem_nil, or_false, not_or]
              exact ⟨hnul, hline, hreturn, hb⟩
            exact ⟨.plain b hfree, rfl, rfl⟩
    obtain ⟨e, hchar, he⟩ := hone
    refine ⟨e :: text, ?_, ?_⟩
    · rw [List.map_cons, List.map_cons, hchar, htext]
    · exact List.forall_mem_cons.mpr ⟨he, hplain⟩

/-! ## A line is printed -/

theorem unescape_append_of_plain {s : GoString} (hs : ∀ b ∈ s, b ≠ backslash ∧ b ≠ nul)
    (rest : GoString) : unescape (s ++ rest) = (unescape rest).map (s ++ ·) := by
  induction s with
  | nil => simp only [List.nil_append, Option.map_id']
  | cons b s ih =>
    obtain ⟨hb, hnul⟩ := hs b List.mem_cons_self
    have hmore := ih fun b hb => hs b (List.mem_cons_of_mem _ hb)
    rw [List.cons_append, unescape_cons hb hnul, hmore, Option.map_map]
    rfl

theorem isSome_unhex {d : Byte} (h : (Go.Url.unhex d).isSome) :
    d ≠ backslash ∧ d ≠ nul ∧ d ≠ newline := by
  refine ⟨?_, ?_, ?_⟩ <;> rintro rfl <;> exact absurd h (by decide)

theorem Escape.unescape_line (e : Escape) (rest : GoString) :
    unescape (e.line ++ rest) = (unescape rest).map (e.printed ++ ·) := by
  cases e with
  | plain b hb =>
    simp only [List.mem_cons, List.not_mem_nil, or_false, not_or] at hb
    have hprinted : (Escape.plain b (by simp [hb])).printed = [b] :=
      congrArg (fun b : Byte => [b]) UInt8.ofNat_toNat
    rw [hprinted]
    exact unescape_cons hb.2.2.2 hb.1 rest
  | quoted c hc =>
    simp only [List.mem_cons, List.not_mem_nil, or_false, not_or] at hc
    have hprinted : (Escape.quoted c (by simp [hc])).printed = [c] :=
      congrArg (fun b : Byte => [b]) UInt8.ofNat_toNat
    have hbyte : unescapeByte c = c := by
      simp only [unescapeByte, if_neg hc.1, if_neg hc.2.2.2.1, if_neg hc.2.2.2.2.1,
        if_neg hc.2.2.2.2.2.1, if_neg hc.2.2.2.2.2.2.1]
    show unescape (backslash :: c :: rest) = _
    rw [unescape_backslash, hbyte, hprinted]
    rfl
  | unicode digits hlength hhex =>
    have hplain : ∀ b ∈ digits, b ≠ backslash ∧ b ≠ nul := fun b hb =>
      ⟨(isSome_unhex (hhex b hb)).1, (isSome_unhex (hhex b hb)).2.1⟩
    show unescape (backslash :: 117 :: (digits ++ rest)) = _
    rw [unescape_backslash, unescape_append_of_plain hplain, Option.map_map]
    rfl
  | _ => rfl

theorem Escape.not_mem_line (e : Escape) : nul ∉ e.line ∧ newline ∉ e.line := by
  cases e with
  | plain b hb =>
    simp only [List.mem_cons, List.not_mem_nil, or_false, not_or] at hb
    simp only [Escape.line, List.mem_singleton]
    exact ⟨Ne.symm hb.1, Ne.symm hb.2.1⟩
  | quoted c hc =>
    simp only [List.mem_cons, List.not_mem_nil, or_false, not_or] at hc
    simp only [Escape.line, List.mem_cons, List.not_mem_nil, or_false, not_or]
    exact ⟨⟨by decide, Ne.symm hc.1⟩, by decide, Ne.symm hc.2.1⟩
  | unicode digits hlength hhex =>
    simp only [Escape.line, List.mem_cons, not_or]
    exact ⟨⟨by decide, by decide, fun h => (isSome_unhex (hhex _ h)).2.1 rfl⟩,
      by decide, by decide, fun h => (isSome_unhex (hhex _ h)).2.2 rfl⟩
  | _ => exact ⟨by decide, by decide⟩

theorem unescape_escapedLine (text : List Escape) (rest : GoString) :
    unescape (escapedLine text ++ nul :: rest) = some (printedText text) := by
  induction text with
  | nil => exact unescape_nul rest
  | cons e text ih =>
    rw [escapedLine] at ih ⊢
    rw [List.flatMap_cons, List.append_assoc, e.unescape_line, ih, Option.map_some]
    rfl

theorem not_mem_escapedLine (text : List Escape) :
    nul ∉ escapedLine text ∧ newline ∉ escapedLine text := by
  simp only [escapedLine, List.mem_flatMap, not_exists, not_and]
  exact ⟨fun e _ => e.not_mem_line.1, fun e _ => e.not_mem_line.2⟩

theorem strchr_append {c : Byte} {s : GoString} (hs : c ∉ s) (hnul : nul ∉ s)
    (rest : GoString) :
    strchr c (s ++ rest) = (strchr c rest).map fun p => p.map (· + s.length) := by
  induction s with
  | nil =>
    simp only [List.nil_append, List.length_nil, Nat.add_zero, Option.map_id']
  | cons b s ih =>
    rw [List.cons_append, strchr_cons_of_ne (List.ne_of_not_mem_cons hs).symm
      (List.ne_of_not_mem_cons hnul).symm, ih (List.not_mem_of_not_mem_cons hs)
      (List.not_mem_of_not_mem_cons hnul), Option.map_map]
    congr 1
    funext p
    cases p with
    | none => rfl
    | some n =>
      simp only [Function.comp_apply, Option.map_some, List.length_cons]
      rw [Nat.add_assoc]

theorem cutLine_of_line {s : GoString} (hnul : nul ∉ s) (hline : newline ∉ s) (rest : GoString) :
    cutLine (s ++ newline :: rest) = some (s ++ nul :: rest) := by
  have hhead : strchr newline (newline :: rest) = some (some 0) := by rw [strchr, if_pos rfl]
  rw [cutLine, strchr_append hline hnul, hhead]
  simp only [Option.map_some, Nat.zero_add]
  rw [List.set_append_right _ _ (Nat.le_refl _), Nat.sub_self, List.set_cons_zero]

theorem cutLine_of_end {s : GoString} (hnul : nul ∉ s) (hline : newline ∉ s) (rest : GoString) :
    cutLine (s ++ nul :: rest) = some (s ++ nul :: rest) := by
  have hhead : strchr newline (nul :: rest) = some none := by
    rw [strchr, if_neg (by decide), if_pos rfl]
  rw [cutLine, strchr_append hline hnul, hhead]
  simp only [Option.map_some, Option.map_none]

/-- A line is printed alike whether it ends the string or not. -/
theorem printUnescaped_escapedLine (text : List Escape) (rest : GoString) :
    printUnescaped (escapedLine text ++ nul :: rest) = some (printedText text ++ [newline]) ∧
      printUnescaped (escapedLine text ++ newline :: rest) =
        some (printedText text ++ [newline]) := by
  obtain ⟨hnul, hline⟩ := not_mem_escapedLine text
  constructor
  · rw [printUnescaped_eq, cutLine_of_end hnul hline, Option.bind_some, unescape_escapedLine,
      Option.map_some]
  · rw [printUnescaped_eq, cutLine_of_line hnul hline, Option.bind_some, unescape_escapedLine,
      Option.map_some]

/-! ## Reads behind the memory -/

/-- The string ends in a backslash that nothing pairs with. -/
def dangling : GoString → Bool
  | [] => false
  | b :: s =>
    if b = backslash then
      match s with
      | [] => true
      | _ :: s => dangling s
    else dangling s

theorem dangling_cons {b : Byte} (hb : b ≠ backslash) (s : GoString) :
    dangling (b :: s) = dangling s := by
  cases s <;> simp only [dangling, if_neg hb]

/-- A string without such a backslash ends the printing; behind one, what follows the NUL is
printed too. -/
theorem unescape_append {s : GoString} (hs : nul ∉ s) :
    ∃ t, ∀ rest, unescape (s ++ nul :: rest) =
      if dangling s then (unescape rest).map (t ++ ·) else some t := by
  induction hn : s.length using Nat.strongRecOn generalizing s with
  | ind n ih =>
    cases s with
    | nil => exact ⟨[], fun rest => unescape_nul rest⟩
    | cons b s =>
      have hnul : b ≠ nul := (List.ne_of_not_mem_cons hs).symm
      have hrest := List.not_mem_of_not_mem_cons hs
      rw [List.length_cons] at hn
      by_cases hb : b = backslash
      · subst hb
        cases s with
        | nil => exact ⟨[unescapeByte nul], fun rest => rfl⟩
        | cons c s =>
          rw [List.length_cons] at hn
          obtain ⟨t, ht⟩ := ih s.length (by omega) (List.not_mem_of_not_mem_cons hrest) rfl
          refine ⟨unescapeByte c :: t, fun rest => ?_⟩
          have hdangling : dangling (backslash :: c :: s) = dangling s := rfl
          rw [List.cons_append, List.cons_append, unescape_backslash, ht, hdangling]
          split
          · rw [Option.map_map]
            rfl
          · rfl
      · obtain ⟨t, ht⟩ := ih s.length (by omega) hrest rfl
        refine ⟨b :: t, fun rest => ?_⟩
        rw [List.cons_append, unescape_cons hb hnul, ht, dangling_cons hb]
        split
        · rw [Option.map_map]
          rfl
        · rfl

theorem unescape_eq_none_iff {s : GoString} (hs : nul ∉ s) :
    unescape (s ++ [nul]) = none ↔ dangling s = true := by
  obtain ⟨t, ht⟩ := unescape_append hs
  rw [ht]
  split
  · rename_i h
    exact iff_of_true rfl h
  · rename_i h
    exact iff_of_false (Option.some_ne_none t) h

/-- Only the first line is meant to be printed. The printing reads behind the memory of a
response if and only if that line ends in a backslash of its own and nothing follows it, or
what follows it ends in one too. -/
theorem reads_behind_iff {s : GoString} (hs : nul ∉ s) :
    printUnescaped (s ++ [nul]) = none ↔ (newline ∉ s ∧ dangling s = true) ∨
      ∃ line rest, newline ∉ line ∧ s = line ++ newline :: rest ∧
        dangling line = true ∧ dangling rest = true := by
  rw [printUnescaped_eq, Option.map_eq_none_iff]
  by_cases hline : newline ∈ s
  · obtain ⟨line, rest, hsplit, hmem⟩ := List.eq_append_cons_of_mem hline
    subst hsplit
    have hnul : nul ∉ line := fun h => hs (List.mem_append_left _ h)
    have hrest : nul ∉ rest := fun h => hs (List.mem_append_right _ (List.mem_cons_of_mem _ h))
    obtain ⟨t, ht⟩ := unescape_append hnul
    rw [List.append_assoc, List.cons_append, cutLine_of_line hnul hmem, Option.bind_some, ht]
    constructor
    · intro hnone
      split at hnone
      · rename_i hdangling
        rw [Option.map_eq_none_iff] at hnone
        exact Or.inr ⟨line, rest, hmem, rfl, hdangling, (unescape_eq_none_iff hrest).mp hnone⟩
      · cases hnone
    · rintro (⟨hno, -⟩ | ⟨line', rest', hmem', heq, hdangling, hdangling'⟩)
      · exact absurd hline hno
      · obtain ⟨rfl, rfl⟩ := append_cons_unique hmem hmem' heq
        rw [if_pos hdangling, (unescape_eq_none_iff hrest).mpr hdangling', Option.map_none]
  · rw [cutLine_of_end hs hline, Option.bind_some, unescape_eq_none_iff hs]
    constructor
    · exact fun h => Or.inl ⟨hline, h⟩
    · rintro (⟨-, h⟩ | ⟨line, rest, -, rfl, -, -⟩)
      · exact h
      · exact absurd (List.mem_append_right line List.mem_cons_self) hline

/-- Both lines of the response end in such a backslash, so its NUL is passed over. -/
theorem reads_behind_backslash :
    printUnescaped (str "a\\\nb\\" ++ [nul]) = none ↔
      (newline ∉ str "a\\\nb\\" ∧ dangling (str "a\\\nb\\") = true) ∨
        ∃ line rest, newline ∉ line ∧ str "a\\\nb\\" = line ++ newline :: rest ∧
          dangling line = true ∧ dangling rest = true :=
  reads_behind_iff (by decide)

end YcAgent.Attach.OpenJ9
