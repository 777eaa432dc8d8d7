import YcAgent.Base.Regex
import YcAgent.Capture.JEP158

/-!
# The GC log of a command line

`ExtractGCLogPathFromCmdline` tries four regular expressions one after the other, until one
of them gives a path. Only the matches of `-Xlog` are cut at a colon and lose their quotes,
and only one of `-Xverbosegclog` is cut at a comma.
-/
namespace YcAgent.Ondemand.GCPath

open Go Capture.JEP158 Regex

def comma : Byte := 44

/-- `\S`. -/
def nonSpace (b : Byte) : Bool := !([9, 10, 12, 13, 32] : GoString).contains b

/-- One attempt, which does nothing where an earlier one has found a path. -/
def attempt (found : Option (List GoString)) (path : GoString → GoString)
    (logFile : GoString) : GoString :=
  if logFile = [] then
    match found with
    | some [m] => path m
    | _ => logFile
  else logFile

/-- The path in a match of `-Xlog`. -/
def outputFile (logFile : GoString) : GoString :=
  if contains logFile [colon] then getFileFromJEP158 logFile else logFile

/-- The path in a match of `-Xverbosegclog`. -/
def firstField (logFile : GoString) : GoString :=
  if contains logFile [comma] then
    let splitByComma := split logFile comma
    if splitByComma.length = 3 then splitByComma.headD [] else logFile
  else logFile

def loggcHead : GoString := str "-Xloggc:"
def xlogHead : GoString := str "-Xlog:gc"
def fileIs : GoString := str ":file="
def verbosegclogHead : GoString := str "-Xverbosegclog:"

def extractGCLogPathFromCmdline (cmdline : GoString) : GoString :=
  let logFile := attempt (find [.lit loggcHead, .group nonSpace] cmdline) id []
  let logFile := attempt
    (find [.lit xlogHead, .many nonSpace, .lit fileIs, .group nonSpace] cmdline) outputFile logFile
  let logFile := attempt
    (find [.lit (xlogHead ++ [colon]), .group nonSpace] cmdline) outputFile logFile
  attempt (find [.lit verbosegclogHead, .group nonSpace] cmdline) firstField logFile

/-! ## The options -/

/-- A path, in quotes or not. -/
structure File where
  path : GoString
  quoted : Bool
  nonempty : path ≠ []
  plain : ∀ b ∈ path, nonSpace b = true ∧ b ≠ quote
  named : path ≠ str "stdout" ∧ path ≠ str "stderr"

def File.text (f : File) : GoString := if f.quoted then quote :: (f.path ++ [quote]) else f.path

/-- A list of decorators or of output options. -/
structure Section where
  text : GoString
  noSpace : ∀ b ∈ text, nonSpace b = true
  noColon : colon ∉ text
  noSlash : ∀ b ∈ text.head?, b ≠ slash ∧ b ≠ backslash
  noFile : ¬str "file=" <+: text

/-- What is behind an output. -/
inductive Tail where
  | none
  | decorators (d : Section)
  | options (d o : Section)

def Tail.text : Tail → GoString
  | .none => []
  | .decorators d => colon :: d.text
  | .options d o => colon :: (d.text ++ colon :: o.text)

/-- A what-selector behind its first tag `gc`. -/
structure Selector where
  text : GoString
  noSpace : ∀ b ∈ text, nonSpace b = true
  noColon : colon ∉ text

def isLetter (b : Byte) : Bool := (65 ≤ b ∧ b ≤ 90) ∨ (97 ≤ b ∧ b ≤ 122)

/-- A path without its drive. -/
def behindDrive : GoString → GoString
  | l :: c :: sep :: rest =>
    if isLetter l ∧ c = colon ∧ (sep = slash ∨ sep = backslash) then rest else l :: c :: sep :: rest
  | p => p

/-- `[file=]F[:D[:O]]`. Out of quotes a colon ends the path, and what starts with `file=` has
the name of the output in it. -/
structure FileOutput where
  named : Bool
  file : File
  tail : Tail
  delimited : file.quoted = false → colon ∉ behindDrive file.path
  unnamed : named = false → ¬str "file=" <+: file.text

def FileOutput.text (f : FileOutput) : GoString :=
  (if f.named then str "file=" else []) ++ (f.file.text ++ f.tail.text)

inductive Output where
  | none
  | stdout (tail : Tail)
  | stderr (tail : Tail)
  | file (f : FileOutput)

def Output.text : Output → GoString
  | .none => []
  | .stdout tail => colon :: (str "stdout" ++ tail.text)
  | .stderr tail => colon :: (str "stderr" ++ tail.text)
  | .file f => colon :: f.text

/-- A number behind the path of `-Xverbosegclog`. -/
structure Count where
  text : GoString
  noSpace : ∀ b ∈ text, nonSpace b = true
  noComma : comma ∉ text

/-- `F[,X,Y]`, where the last two of at least three fields are `X` and `Y`. -/
structure Rotated where
  file : File
  rotation : Option (Count × Count)
  delimited : rotation = none → file.path.count comma < 2

def Rotated.text (r : Rotated) : GoString :=
  match r.rotation with
  | none => r.file.text
  | some (x, y) => r.file.text ++ (comma :: (x.text ++ comma :: y.text))

inductive GCOption where
  | loggc (f : File)
  | verbosegclog (r : Rotated)
  | xlog (what : Selector) (output : Output)

def GCOption.text : GCOption → GoString
  | .loggc f => loggcHead ++ f.text
  | .verbosegclog r => verbosegclogHead ++ r.text
  | .xlog what output => xlogHead ++ (what.text ++ output.text)

/-- The path that an option names, without its quotes. -/
def GCOption.path : GCOption → GoString
  | .loggc f => f.path
  | .verbosegclog r => r.file.path
  | .xlog _ (.file f) => f.file.path
  | .xlog _ _ => []

/-- A GC logging option starts here. -/
def StartsOption (u : GoString) : Prop :=
  loggcHead <+: u ∨ verbosegclogHead <+: u ∨ xlogHead <+: u

instance : DecidablePred StartsOption := fun _ => inferInstanceAs (Decidable (_ ∨ _))

/-- The option ends with the text or at a space, and no other one is in the text. -/
structure OnlyOption (before : GoString) (o : GCOption) (after : GoString) : Prop where
  ends : ∀ b ∈ after.head?, nonSpace b = false
  only : ∀ u ∈ (before ++ (o.text ++ after)).tails, StartsOption u → u = o.text ++ after

/-- The options whose path is extracted. -/
def Extracted : GCOption → Prop
  | .loggc f => f.quoted = false
  | .verbosegclog r => r.file.quoted = false ∧ (r.rotation ≠ none → comma ∉ r.file.path)
  | .xlog _ .none => True
  | .xlog what (.stdout _) => what.text ≠ []
  | .xlog what (.stderr _) => what.text ≠ []
  | .xlog what (.file f) =>
    (f.named = false → what.text = []) ∧
      (f.file.quoted = true →
        (f.tail.text ≠ [] ∨ colon ∈ f.file.path) ∧ f.file.path.getLast? ≠ some backslash ∧
          Whole f.file.path ∧ ¬fileIs <:+: f.file.path)

/-! ## Texts -/

theorem fileIs_eq : fileIs = colon :: str "file=" := by decide

theorem quote_nonSpace : nonSpace quote = true := by decide

theorem colon_nonSpace : nonSpace colon = true := by decide

theorem colon_not_mem_fileIs : colon ∉ str "file=" := by decide

theorem File.unquoted (f : File) : Unquoted f.path := by
  intro b hb
  refine ⟨(f.plain b hb).2, fun heq => ?_⟩
  have hspace := (f.plain b hb).1
  rw [heq] at hspace
  exact absurd hspace (by decide)

theorem File.text_noSpace (f : File) : ∀ b ∈ f.text, nonSpace b = true := by
  have hpath : ∀ b ∈ f.path, nonSpace b = true := fun b hb => (f.plain b hb).1
  unfold File.text
  split
  · refine List.forall_mem_cons.mpr ⟨quote_nonSpace, List.forall_mem_append.mpr ⟨hpath, ?_⟩⟩
    exact List.forall_mem_singleton.mpr quote_nonSpace
  · exact hpath

theorem File.text_ne_nil (f : File) : f.text ≠ [] := by
  unfold File.text
  split
  · exact List.cons_ne_nil _ _
  · exact f.nonempty

theorem File.text_eq_path_iff (f : File) : f.text = f.path ↔ f.quoted = false := by
  unfold File.text
  split
  · rename_i h
    rw [h]
    refine ⟨fun heq => ?_, fun h => by cases h⟩
    have := congrArg List.length heq
    rw [List.length_cons, List.length_append, List.length_singleton] at this
    omega
  · rename_i h
    exact iff_of_true rfl (Bool.eq_false_iff.mpr h)

/-- What the texts behind an output have in common. -/
structure Ends (tail : GoString) : Prop where
  driveless : Driveless tail
  head : ∀ b ∈ tail.head?, b = colon
  noSpace : ∀ b ∈ tail, nonSpace b = true
  noFile : ¬fileIs <:+: tail

theorem ends_nil : Ends [] where
  driveless := ⟨(fun b hb => by cases hb), by decide, by decide⟩
  head := fun b hb => by cases hb
  noSpace := fun b hb => by cases hb
  noFile := by decide

/-- A text without a colon is not cut short by what may follow a section. -/
theorem prefix_of_colonFree {l d tail : GoString} (hl : colon ∉ l)
    (htail : ∀ b ∈ tail.head?, b = colon) (h : l <+: d ++ tail) : l <+: d := by
  refine prefix_of_prefix_word (c := (· != colon)) (fun b hb => ?_) (fun b hb => ?_) h
  · exact bne_iff_ne.mpr fun heq => hl (heq ▸ hb)
  · rw [htail b hb]
    rfl

theorem infix_section {l : GoString} (hl : colon ∉ l) (d : Section) {tail : GoString}
    (htail : ∀ b ∈ tail.head?, b = colon) (h : colon :: l <:+: colon :: (d.text ++ tail)) :
    l <+: d.text ∨ colon :: l <:+: tail := by
  obtain hpre | hrest := List.infix_cons_iff.mp h
  · exact Or.inl (prefix_of_colonFree hl htail (List.cons_prefix_cons.mp hpre).2)
  · exact Or.inr (infix_of_infix_append d.noColon hrest)

/-- A section in front of others. -/
theorem ends_section (d : Section) {tail : GoString} (h : Ends tail) :
    Ends (colon :: (d.text ++ tail)) where
  driveless := by
    have hhead : ∀ c, [c] <+: d.text → c ≠ slash ∧ c ≠ backslash := by
      intro c hc
      obtain ⟨t, ht⟩ := hc
      exact d.noSlash c (by rw [← ht]; rfl)
    refine ⟨fun b hb => ?_, fun hinf => ?_, fun hinf => ?_⟩
    · cases hb
      decide
    · obtain hpre | hrest := infix_section (by decide) d h.head hinf
      · exact (hhead slash hpre).1 rfl
      · exact h.driveless.noSlash hrest
    · obtain hpre | hrest := infix_section (by decide) d h.head hinf
      · exact (hhead backslash hpre).2 rfl
      · exact h.driveless.noBackslash hrest
  head := fun b hb => (Option.some.inj hb).symm
  noSpace := by
    refine List.forall_mem_cons.mpr ⟨colon_nonSpace, ?_⟩
    exact List.forall_mem_append.mpr ⟨d.noSpace, h.noSpace⟩
  noFile := by
    intro hinf
    rw [fileIs_eq] at hinf
    obtain hpre | hrest := infix_section colon_not_mem_fileIs d h.head hinf
    · exact d.noFile hpre
    · exact h.noFile (fileIs_eq ▸ hrest)

theorem Tail.ends (tail : Tail) : Ends tail.text := by
  cases tail with
  | none => exact ends_nil
  | decorators d =>
    rw [Tail.text, ← List.append_nil d.text]
    exact ends_section d ends_nil
  | options d o =>
    have ho : Ends (colon :: o.text) := by
      rw [← List.append_nil o.text]
      exact ends_section o ends_nil
    exact ends_section d ho

/-! ## The path in an output -/

theorem outputFile_of_mem {s : GoString} (h : colon ∈ s) :
    outputFile s = trimQuotes (cutSections s) := by
  rw [outputFile, if_pos ((contains_iff _ _).mpr ((List.singleton_infix_iff _ _).mpr h))]
  rfl

theorem outputFile_of_not_mem {s : GoString} (h : colon ∉ s) : outputFile s = s := by
  rw [outputFile, if_neg fun hc => h ((List.singleton_infix_iff _ _).mp ((contains_iff _ _).mp hc))]

theorem Ends.eq_nil {tail : GoString} (h : Ends tail) (hcolon : colon ∉ tail) : tail = [] := by
  cases tail with
  | nil => rfl
  | cons b tail => exact absurd (List.mem_cons.mpr (Or.inl (h.head b rfl).symm)) hcolon

/-- Out of quotes a whole path is what is extracted. -/
theorem outputFile_append {p tail : GoString} (hp : Unquoted p) (hwhole : Whole p)
    (htail : Ends tail) : outputFile (p ++ tail) = p := by
  by_cases hcolon : colon ∈ p ++ tail
  · rw [outputFile_of_mem hcolon, cutSections_append htail.driveless htail.head,
      cutSections_of_whole hwhole, trimQuotes_unquoted hp]
  · have hnil := htail.eq_nil fun h => hcolon (List.mem_append_right p h)
    rw [outputFile_of_not_mem hcolon, hnil, List.append_nil]

theorem length_outputFile_le (z : GoString) {tail : GoString} (htail : Ends tail) :
    (outputFile (z ++ tail)).length ≤ z.length := by
  by_cases hcolon : colon ∈ z ++ tail
  · rw [outputFile_of_mem hcolon, cutSections_append htail.driveless htail.head]
    exact (length_trimQuotes_le _).trans (cutSections_isPrefix z).length_le
  · have hnil := htail.eq_nil fun h => hcolon (List.mem_append_right z h)
    rw [outputFile_of_not_mem hcolon, hnil, List.append_nil]

theorem not_trimmed_colon : ¬Trimmed colon := by
  unfold Trimmed
  decide

/-- The drive of a path is never lost. -/
theorem outputFile_ne_nil {c : Byte} {z tail : GoString} (hc : c = slash ∨ c = backslash)
    (htail : Ends tail) (h : [colon, c] <:+: z) : outputFile (z ++ tail) ≠ [] := by
  have hmem : colon ∈ z := h.subset List.mem_cons_self
  rw [outputFile_of_mem (List.mem_append_left tail hmem),
    cutSections_append htail.driveless htail.head]
  exact List.ne_nil_of_mem (mem_trimQuotes (colon_mem_cutSections hc h) not_trimmed_colon)

theorem driveless_quote : Driveless [quote] :=
  ⟨by decide, by decide, by decide⟩

theorem colon_not_mem_quote : colon ∉ [quote] := by decide

theorem whole_quoted_iff (p : GoString) : Whole (quote :: (p ++ [quote])) ↔ Whole p :=
  (whole_prepend_iff colon_not_mem_quote _).trans
    (whole_append_iff driveless_quote colon_not_mem_quote p)

/-- In quotes a path is extracted where something is cut, nothing of the path is, and no
backslash is trimmed with the quote. -/
theorem outputFile_quoted_iff {p tail : GoString} (hp : Unquoted p) (hne : p ≠ [])
    (htail : Ends tail) :
    outputFile (quote :: (p ++ [quote]) ++ tail) = p ↔
      (tail ≠ [] ∨ colon ∈ p) ∧ p.getLast? ≠ some backslash ∧ Whole p := by
  by_cases hfirst : tail ≠ [] ∨ colon ∈ p
  · have hcolon : colon ∈ quote :: (p ++ [quote]) ++ tail := by
      obtain htext | hmem := hfirst
      · exact List.mem_append_right _ (not_not.mp fun h => htext (htail.eq_nil h))
      · exact List.mem_append_left _ (List.mem_cons_of_mem _ (List.mem_append_left _ hmem))
    rw [outputFile_of_mem hcolon, cutSections_append htail.driveless htail.head]
    by_cases hwhole : Whole p
    · rw [cutSections_of_whole ((whole_quoted_iff p).mpr hwhole), trimQuotes_quoted hp]
      by_cases hlast : p.getLast? = some backslash
      · rw [if_pos hlast]
        refine iff_of_false (fun heq => ?_) fun h => h.2.1 hlast
        have hlength := congrArg List.length heq
        have hpos := List.length_pos_iff.mpr hne
        rw [List.length_dropLast] at hlength
        omega
      · rw [if_neg hlast]
        exact iff_of_true rfl ⟨hfirst, hlast, hwhole⟩
    · have hcut : cutSections (quote :: (p ++ [quote])) = quote :: cutSections p := by
        rw [← cutSections_append_of_not_whole driveless_quote hwhole]
        exact cutSections_prepend colon_not_mem_quote (p ++ [quote])
      have hunquoted : Unquoted (cutSections p) :=
        fun b hb => hp b ((cutSections_isPrefix p).subset hb)
      rw [hcut, trimQuotes_opened hunquoted]
      exact iff_of_false (cutSections_ne_of_not_whole hwhole) fun h => hwhole h.2.2
  · obtain ⟨htext, hmem⟩ := not_or.mp hfirst
    have hnil : tail = [] := not_not.mp htext
    have hcolon : colon ∉ quote :: (p ++ [quote]) := by
      rw [List.mem_cons, List.mem_append]
      exact not_or.mpr ⟨by decide, not_or.mpr ⟨hmem, colon_not_mem_quote⟩⟩
    rw [hnil, List.append_nil, outputFile_of_not_mem hcolon]
    refine iff_of_false (fun heq => ?_) fun h => hfirst (hnil ▸ h.1)
    have hlength := congrArg List.length heq
    rw [List.length_cons, List.length_append] at hlength
    omega

theorem not_trimmed_name : ∀ b ∈ str "file=", ¬Trimmed b := by
  unfold Trimmed
  decide

/-- A text without quotes that is left of one with the name in front is the name: no byte of
the name is trimmed, and the quote is behind it. -/
theorem eq_name_of_trimmed {p t x y : GoString} (hp : Unquoted p)
    (hs : str "file=" ++ quote :: t = x ++ (p ++ y)) (hx : ∀ b ∈ x, Trimmed b)
    (hy : ∀ b ∈ y, Trimmed b) : p = str "file=" ∧ y = quote :: t := by
  have hxnil : x = [] := by
    cases x with
    | nil => rfl
    | cons b x =>
      have hb : (102 : Byte) = b := (List.cons.inj hs).1
      exact absurd (hx b List.mem_cons_self) (not_trimmed_name b (hb ▸ by decide))
  rw [hxnil, List.nil_append] at hs
  obtain ⟨a, ha, hrest⟩ | ⟨a, ha, hrest⟩ := List.append_eq_append_iff.mp hs
  · cases a with
    | nil => exact ⟨by rw [ha, List.append_nil], hrest.symm⟩
    | cons b a =>
      have hb : quote = b := (List.cons.inj hrest).1
      have hmem : quote ∈ p := by
        rw [ha, hb]
        exact List.mem_append_right _ List.mem_cons_self
      exact absurd rfl (hp quote hmem).1
  · cases a with
    | nil => exact ⟨by rw [ha, List.append_nil], hrest⟩
    | cons b a =>
      have hb : b ∈ str "file=" := by
        rw [ha]
        exact List.mem_append_right _ List.mem_cons_self
      refine absurd (hy b ?_) (not_trimmed_name b hb)
      rw [hrest]
      exact List.mem_append_left _ List.mem_cons_self

/-- With the name of the output in front, a path in quotes is not extracted: the opening
quote is trimmed only with all that is behind it. -/
theorem outputFile_named_ne {p tail : GoString} (hp : Unquoted p) (htail : Ends tail) :
    outputFile (str "file=" ++ (quote :: (p ++ [quote]) ++ tail)) ≠ p := by
  intro heq
  by_cases hcolon : colon ∈ str "file=" ++ (quote :: (p ++ [quote]) ++ tail)
  · have hcut : cutSections (quote :: (p ++ [quote])) = quote :: cutSections (p ++ [quote]) :=
      cutSections_prepend colon_not_mem_quote (p ++ [quote])
    rw [outputFile_of_mem hcolon, cutSections_prepend colon_not_mem_fileIs,
      cutSections_append htail.driveless htail.head, hcut] at heq
    obtain ⟨x, y, hs, hx, hy⟩ :=
      trimQuotes_append (str "file=" ++ quote :: cutSections (p ++ [quote]))
    rw [heq] at hs
    obtain ⟨hname, hbehind⟩ := eq_name_of_trimmed hp hs hx hy
    have hrest : cutSections (p ++ [quote]) = str "file=" ++ cutSections [quote] := by
      rw [hname]
      exact cutSections_prepend colon_not_mem_fileIs [quote]
    refine absurd (hy 102 ?_) (not_trimmed_name 102 (by decide))
    rw [hbehind, hrest]
    exact List.mem_cons_of_mem _ (List.mem_append_left _ (by decide))
  · rw [outputFile_of_not_mem hcolon] at heq
    have hmem : quote ∈ p :=
      heq ▸ List.mem_append_right _ (List.mem_append_left _ List.mem_cons_self)
    exact absurd rfl (hp quote hmem).1

end YcAgent.Ondemand.GCPath
