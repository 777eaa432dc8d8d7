import YcAgent.Capture.JEP158

/-!
# The text of a `-Xlog` output

The value of `file=` is the path of the log, quoted or not, with sections behind it that each
start with a colon. The path comes back from every such text.
-/
namespace YcAgent.Capture.JEP158

open Go

/-- A drive, as `C:\` or `C:/`; any text without a colon and a quote may be its letter. -/
structure Drive where
  letter : GoString
  sep : Byte
  colon_not_mem : colon ∉ letter
  quote_not_mem : quote ∉ letter
  isSep : sep = slash ∨ sep = backslash

def Drive.text (d : Drive) : GoString := d.letter ++ [colon, d.sep]

def driveText : Option Drive → GoString
  | none => []
  | some d => d.text

/-- The path of a log file: what follows the drive has no colon. -/
structure LogPath where
  drive : Option Drive
  rest : GoString
  rest_ne_nil : rest ≠ []
  colon_not_mem : colon ∉ rest
  quote_not_mem : quote ∉ rest
  last_ne_backslash : rest.getLast? ≠ some backslash
  head_ne_space : (driveText drive ++ rest).head? ≠ some space
  last_ne_space : (driveText drive ++ rest).getLast? ≠ some space

def LogPath.text (F : LogPath) : GoString := driveText F.drive ++ F.rest

inductive Quoting where
  | none
  | plain
  | escaped

def Quoting.text : Quoting → GoString
  | .none => []
  | .plain => [quote]
  | .escaped => [backslash, quote]

/-- The sections behind a path, which do not look like those of a drive. -/
structure Sections where
  text : GoString
  head : ∀ b ∈ text.head?, b = colon
  noSlash : ¬[colon, slash] <:+: text
  noBackslash : ¬[colon, backslash] <:+: text

/-- The value of `file=`. -/
def renderFile (q : Quoting) (F : LogPath) (sections : Sections) : GoString :=
  q.text ++ F.text ++ q.text ++ sections.text

theorem Sections.driveless (s : Sections) : Driveless s.text where
  head b hb := by
    rw [s.head b hb]
    decide
  noSlash := s.noSlash
  noBackslash := s.noBackslash

theorem Quoting.colon_not_mem (q : Quoting) : colon ∉ q.text := by cases q <;> decide

section Path

variable (F : LogPath)

theorem LogPath.quote_not_mem_text : quote ∉ F.text := by
  obtain ⟨drive, rest, -, -, hrest, -, -, -⟩ := F
  intro hmem
  rcases List.mem_append.mp hmem with hmem | hmem
  · cases drive with
    | none => cases hmem
    | some d =>
      rcases List.mem_append.mp hmem with hmem | hmem
      · exact d.quote_not_mem hmem
      · rcases List.mem_pair.mp hmem with h | h
        · exact absurd h (by decide)
        · rcases d.isSep with hsep | hsep
          · exact absurd (h.trans hsep) (by decide)
          · exact absurd (h.trans hsep) (by decide)
  · exact hrest hmem

theorem LogPath.last_text : F.text.getLast? ≠ some backslash := by
  rw [LogPath.text, List.getLast?_append_of_ne_nil _ F.rest_ne_nil]
  exact F.last_ne_backslash

/-- Neither end of a path is trimmed. -/
theorem LogPath.head_not_trimmed : ∀ b ∈ F.text.head?, b ∉ [quote, space] := by
  intro b hb hmem
  rcases List.mem_pair.mp hmem with rfl | rfl
  · exact F.quote_not_mem_text (List.mem_of_mem_head? hb)
  · exact F.head_ne_space hb

theorem LogPath.last_not_trimmed : ∀ b ∈ F.text.getLast?, b ∉ [quote, space] := by
  intro b hb hmem
  rcases List.mem_pair.mp hmem with rfl | rfl
  · exact F.quote_not_mem_text (List.mem_of_mem_getLast? hb)
  · exact F.last_ne_space hb

/-- A colon of a path is one of its drive. -/
theorem LogPath.whole_append {tail : GoString} (htail : colon ∉ tail) : Whole (F.text ++ tail) := by
  obtain ⟨drive, rest, -, hrest, -, -, -, -⟩ := F
  have hbehind : colon ∉ rest ++ tail := fun hmem => (List.mem_append.mp hmem).elim hrest htail
  cases drive with
  | none => exact whole_of_colonFree hbehind
  | some d =>
    have heq : driveText (some d) ++ rest ++ tail =
        d.letter ++ colon :: d.sep :: (rest ++ tail) := by
      simp [driveText, Drive.text]
    show Whole (driveText (some d) ++ rest ++ tail)
    rw [heq]
    exact whole_drive d.colon_not_mem d.isSep hbehind

end Path

/-- The cut leaves the path in its quotes. -/
theorem cutSections_renderFile (q : Quoting) (F : LogPath) (sections : Sections) :
    cutSections (renderFile q F sections) = q.text ++ (F.text ++ q.text) := by
  rw [renderFile, cutSections_append sections.driveless sections.head, List.append_assoc,
    cutSections_prepend q.colon_not_mem,
    cutSections_of_whole (F.whole_append q.colon_not_mem)]

theorem trimQuotes_quoting (q : Quoting) (F : LogPath) :
    trimQuotes (q.text ++ (F.text ++ q.text)) = F.text := by
  have hquote := F.quote_not_mem_text
  have hescape : quote ∈ [backslash, quote] := List.mem_cons_of_mem _ List.mem_cons_self
  have hbare : trimAny F.text [quote, space] = F.text := by
    have hany := trimAny_between (x := []) (y := []) (fun b hb => by cases hb)
      F.head_not_trimmed F.last_not_trimmed (fun b hb => by cases hb)
    rwa [List.nil_append, List.append_nil] at hany
  unfold trimQuotes
  dsimp only
  cases q with
  | none =>
    have hsuf : ¬[backslash, quote] <:+ F.text := fun h => hquote (h.subset hescape)
    have hpre : ¬[backslash, quote] <+: F.text := fun h => hquote (h.subset hescape)
    rw [Quoting.text, List.nil_append, List.append_nil, trimSuffix_of_not hsuf,
      trimPrefix_of_not hpre, hbare]
  | plain =>
    have hsuf : ¬[backslash, quote] <:+ quote :: (F.text ++ [quote]) :=
      mt getLast?_of_escape F.last_text
    show trimAny
      (FilePath.trimPrefix (FilePath.trimSuffix (quote :: (F.text ++ [quote])) _) _) _ = _
    rw [trimSuffix_of_not hsuf, trimPrefix_of_not (quote_not_escape _)]
    exact trimAny_between (x := [quote]) (y := [quote]) (by decide) F.head_not_trimmed
      F.last_not_trimmed (by decide)
  | escaped =>
    have hsuffix : FilePath.trimSuffix ([backslash, quote] ++ (F.text ++ [backslash, quote]))
        [backslash, quote] = [backslash, quote] ++ F.text := by
      rw [← List.append_assoc, FilePath.trimSuffix, hasSuffix,
        if_pos (List.isSuffixOf_iff_suffix.mpr (List.suffix_append _ _)), List.length_append,
        Nat.add_sub_cancel, List.take_left]
    have hprefix : FilePath.trimPrefix ([backslash, quote] ++ F.text) [backslash, quote] =
        F.text := by
      rw [FilePath.trimPrefix, hasPrefix,
        if_pos (List.isPrefixOf_iff_prefix.mpr (List.prefix_append _ _)), List.drop_left]
    rw [Quoting.text, hsuffix, hprefix, hbare]

/-- The path comes back, whatever its drive, its quotes and the sections behind it. -/
theorem getFileFromJEP158_renderFile (q : Quoting) (F : LogPath) (sections : Sections) :
    getFileFromJEP158 (renderFile q F sections) = F.text := by
  rw [getFileFromJEP158, cutSections_renderFile, trimQuotes_quoting]

/-- A log on a drive, in escaped quotes, with two sections behind it. -/
def driveLog : LogPath where
  drive := some ⟨str "F", slash, by decide, by decide, Or.inl rfl⟩
  rest := str "tmp/gc.log"
  rest_ne_nil := by decide
  colon_not_mem := by decide
  quote_not_mem := by decide
  last_ne_backslash := by decide
  head_ne_space := by decide
  last_ne_space := by decide

def rotationSections : Sections where
  text := str ":tags,time:filecount=10,filesize=10M"
  head := by decide
  noSlash := by decide
  noBackslash := by decide

theorem getFileFromJEP158_driveLog :
    renderFile .escaped driveLog rotationSections =
        str "\\\"F:/tmp/gc.log\\\":tags,time:filecount=10,filesize=10M" ∧
      getFileFromJEP158 (renderFile .escaped driveLog rotationSections) = str "F:/tmp/gc.log" := by
  refine ⟨by decide, ?_⟩
  rw [getFileFromJEP158_renderFile]
  decide

end YcAgent.Capture.JEP158
