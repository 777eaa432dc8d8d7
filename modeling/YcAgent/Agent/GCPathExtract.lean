import YcAgent.Agent.GCPath

/-!
# Which paths are extracted

From the text of an option each of the four expressions finds one match or none. The one
with `:file=` takes its last place in the word, which is in front of the file, or in the
quotes of a path that has it inside.
-/
namespace YcAgent.Ondemand.GCPath

open Go Capture.JEP158 Regex

/-! ## The attempts -/

@[simp] theorem attempt_none (path : GoString → GoString) (logFile : GoString) :
    attempt none path logFile = logFile := by
  unfold attempt
  split <;> rfl

@[simp] theorem attempt_some_nil (m : GoString) (path : GoString → GoString) :
    attempt (some [m]) path [] = path m := rfl

theorem attempt_of_ne {logFile : GoString} (h : logFile ≠ []) (found : Option (List GoString))
    (path : GoString → GoString) : attempt found path logFile = logFile := by
  unfold attempt
  rw [if_neg h]

/-- What the attempts give for the text from the option on. -/
def attempts (t : GoString) : GoString :=
  attempt (matchHere [.lit verbosegclogHead, .group nonSpace] t) firstField
    (attempt (matchHere [.lit (xlogHead ++ [colon]), .group nonSpace] t) outputFile
      (attempt (matchHere [.lit xlogHead, .many nonSpace, .lit fileIs, .group nonSpace] t)
        outputFile (attempt (matchHere [.lit loggcHead, .group nonSpace] t) id [])))

/-- Every expression starts with a literal that is only where the option is. -/
theorem extractGCLogPathFromCmdline_eq {before after : GoString} {o : GCOption}
    (honly : OnlyOption before o after) :
    extractGCLogPathFromCmdline (before ++ (o.text ++ after)) = attempts (o.text ++ after) := by
  have hfind : ∀ (l : GoString) (ps : List (Piece Byte)), (∀ u, l <+: u → StartsOption u) →
      find (.lit l :: ps) (before ++ (o.text ++ after)) =
        matchHere (.lit l :: ps) (o.text ++ after) := by
    intro l ps hl
    refine find_lit_of_only ps fun u hu hpre => ?_
    exact honly.only u ((List.mem_tails _ _).mpr hu) (hl u hpre)
  unfold extractGCLogPathFromCmdline attempts
  dsimp only
  rw [hfind _ _ fun u hu => Or.inl hu, hfind _ _ fun u hu => Or.inr (Or.inr hu),
    hfind _ _ fun u hu => Or.inr (Or.inr ((List.prefix_append _ _).trans hu)),
    hfind _ _ fun u hu => Or.inr (Or.inl hu)]

theorem matchHere_other {l l' : GoString} (h : ¬l <+: l') (h' : ¬l' <+: l)
    (ps : List (Piece Byte)) (t : GoString) : matchHere (.lit l :: ps) (l' ++ t) = none := by
  refine matchHere_lit_eq_none ps fun hpre => ?_
  obtain hle | hle := List.prefix_or_prefix_of_prefix hpre (List.prefix_append l' t)
  · exact h hle
  · exact h' hle

theorem attempts_loggc (f : File) {after : GoString}
    (hafter : ∀ b ∈ after.head?, nonSpace b = false) :
    attempts ((GCOption.loggc f).text ++ after) = f.text := by
  have hfound : matchHere [.lit loggcHead, .group nonSpace] (loggcHead ++ (f.text ++ after)) =
      some [f.text] := by
    rw [matchHere_lit_append, matchHere_group_word f.text_noSpace hafter f.text_ne_nil]
  rw [GCOption.text, List.append_assoc, attempts, hfound, attempt_some_nil, id,
    attempt_of_ne f.text_ne_nil, attempt_of_ne f.text_ne_nil, attempt_of_ne f.text_ne_nil]

theorem Rotated.text_noSpace (r : Rotated) : ∀ b ∈ r.text, nonSpace b = true := by
  unfold Rotated.text
  split
  · exact r.file.text_noSpace
  · rename_i x y _
    have hcomma : nonSpace comma = true := by decide
    refine List.forall_mem_append.mpr ⟨r.file.text_noSpace, ?_⟩
    refine List.forall_mem_cons.mpr ⟨hcomma, List.forall_mem_append.mpr ⟨x.noSpace, ?_⟩⟩
    exact List.forall_mem_cons.mpr ⟨hcomma, y.noSpace⟩

theorem Rotated.text_ne_nil (r : Rotated) : r.text ≠ [] := by
  unfold Rotated.text
  split
  · exact r.file.text_ne_nil
  · exact List.append_ne_nil_of_left_ne_nil r.file.text_ne_nil _

theorem attempts_verbosegclog (r : Rotated) {after : GoString}
    (hafter : ∀ b ∈ after.head?, nonSpace b = false) :
    attempts ((GCOption.verbosegclog r).text ++ after) = firstField r.text := by
  have hfound : matchHere [.lit verbosegclogHead, .group nonSpace]
      (verbosegclogHead ++ (r.text ++ after)) = some [r.text] := by
    rw [matchHere_lit_append, matchHere_group_word r.text_noSpace hafter r.text_ne_nil]
  rw [GCOption.text, List.append_assoc, attempts, hfound,
    matchHere_other (by decide) (by decide), matchHere_other (by decide) (by decide),
    matchHere_other (by decide) (by decide), attempt_none, attempt_none, attempt_none,
    attempt_some_nil]

/-- Of `-Xlog` the second attempt counts, and the third where it gives nothing. -/
theorem attempts_xlog (what : Selector) (output : Output) (after : GoString) :
    attempts ((GCOption.xlog what output).text ++ after) =
      attempt (matchHere [.lit [colon], .group nonSpace] (what.text ++ (output.text ++ after)))
        outputFile
        (attempt (matchHere [.many nonSpace, .lit fileIs, .group nonSpace]
          (what.text ++ output.text ++ after)) outputFile []) := by
  have hother : ∀ (l : GoString) (ps : List (Piece Byte)) (t : GoString),
      l = loggcHead ∨ l = verbosegclogHead → matchHere (.lit l :: ps) (xlogHead ++ t) = none := by
    intro l ps t hl
    obtain rfl | rfl := hl
    · exact matchHere_other (by decide) (by decide) ps t
    · exact matchHere_other (by decide) (by decide) ps t
  rw [GCOption.text, List.append_assoc, List.append_assoc, attempts, hother _ _ _ (Or.inl rfl),
    hother _ _ _ (Or.inr rfl), matchHere_lit_cut, matchHere_lit_append, attempt_none,
    attempt_none]

theorem third_of_text {what output after : GoString} (hwhat : colon ∉ what)
    (hafter : ∀ b ∈ after.head?, nonSpace b = false) (h : what ≠ [] ∨ output = []) :
    matchHere [.lit [colon], .group nonSpace] (what ++ (output ++ after)) = none := by
  refine matchHere_lit_eq_none _ fun hpre => ?_
  obtain ⟨t, ht⟩ := hpre
  cases what with
  | cons b what =>
    have hb : colon = b := (List.cons.inj ht).1
    exact hwhat (hb ▸ List.mem_cons_self)
  | nil =>
    obtain hne | rfl := h
    · exact hne rfl
    · have hcolon : after = colon :: t := ht.symm
      have hb := hafter colon (by rw [hcolon]; rfl)
      exact absurd (colon_nonSpace.symm.trans hb) (by decide)

theorem third_found {z after : GoString} (hz : ∀ b ∈ z, nonSpace b = true)
    (hafter : ∀ b ∈ after.head?, nonSpace b = false) (hne : z ≠ []) :
    matchHere [.lit [colon], .group nonSpace] ([] ++ (colon :: z ++ after)) = some [z] := by
  exact (matchHere_lit_append [colon] (z ++ after) _).trans (matchHere_group_word hz hafter hne)

/-! ## The places of `:file=` -/

/-- A literal that neither is in `t` nor reaches into it is in the text before it. -/
theorem split_before {x t v l s : GoString} (h : x ++ t = v ++ (l ++ s)) (hin : ¬l <:+: t)
    (hcross : ∀ a b, l = a ++ b → b ≠ [] → ¬b <+: t) :
    ∃ s', x = v ++ (l ++ s') ∧ s = s' ++ t := by
  obtain ⟨a, -, ht⟩ | ⟨a, hx, hls⟩ := List.append_eq_append_iff.mp h
  · refine absurd ?_ hin
    rw [ht]
    exact List.infix_append' a l s
  · obtain ⟨b, ha, hs⟩ | ⟨b, hl, ht⟩ := List.append_eq_append_iff.mp hls
    · exact ⟨b, by rw [hx, ha], hs⟩
    · by_cases hb : b = []
      · rw [hb, List.append_nil] at hl
        rw [hb, List.nil_append] at ht
        exact ⟨[], by rw [hx, hl, List.append_nil], ht.symm⟩
      · exact absurd ⟨s, ht.symm⟩ (hcross a b hl hb)

theorem colon_first {a b : GoString} (h : fileIs = a ++ colon :: b) : a = [] := by
  cases a with
  | nil => rfl
  | cons c a =>
    rw [fileIs_eq] at h
    refine absurd ?_ colon_not_mem_fileIs
    rw [(List.cons.inj h).2]
    exact List.mem_append_right _ List.mem_cons_self

theorem split_tail {x tail v s : GoString} (htail : Ends tail)
    (h : x ++ tail = v ++ (fileIs ++ s)) : ∃ s', x = v ++ (fileIs ++ s') ∧ s = s' ++ tail := by
  refine split_before h htail.noFile fun a b hl hb hpre => ?_
  obtain ⟨t, ht⟩ := hpre
  cases b with
  | nil => exact hb rfl
  | cons c b =>
    have hc : c = colon := htail.head c (by rw [← ht]; rfl)
    rw [hc] at hl ht
    rw [colon_first hl] at hl
    refine htail.noFile ?_
    rw [← ht, ← List.nil_append (colon :: b), ← hl]
    exact (List.prefix_append _ _).isInfix

theorem split_quoted {p v s : GoString} (h : quote :: (p ++ [quote]) = v ++ (fileIs ++ s)) :
    ∃ v' q, p = v' ++ (fileIs ++ q) ∧ s = q ++ [quote] := by
  cases v with
  | nil =>
    rw [fileIs_eq] at h
    exact absurd (List.cons.inj h).1 (by decide)
  | cons c v =>
    have hcross : ∀ a b, fileIs = a ++ b → b ≠ [] → ¬b <+: [quote] := by
      intro a b hl hb hpre
      have hquote : quote ∉ fileIs := by decide
      cases b with
      | nil => exact hb rfl
      | cons d b =>
        have hd : d = quote := (List.cons_prefix_cons.mp hpre).1
        refine hquote ?_
        rw [hl, hd]
        exact List.mem_append_right _ List.mem_cons_self
    obtain ⟨q, hp, hs⟩ := split_before (List.cons.inj h).2 (by decide) hcross
    exact ⟨v, q, hp, hs⟩

theorem split_behind {a z v s : GoString} (ha : colon ∉ a) (h : a ++ z = v ++ (fileIs ++ s)) :
    ∃ v', v = a ++ v' ∧ z = v' ++ (fileIs ++ s) := by
  obtain ⟨v', hv, hz⟩ | ⟨b, hb, hs⟩ := List.append_eq_append_iff.mp h
  · exact ⟨v', hv, hz⟩
  · cases b with
    | nil => exact ⟨[], by rw [hb, List.append_nil, List.append_nil], hs.symm⟩
    | cons c b =>
      have hc : colon = c := (List.cons.inj hs).1
      refine absurd ?_ ha
      rw [hb, hc]
      exact List.mem_append_right _ List.mem_cons_self

/-- Out of quotes the only colon of a path is the one of its drive. -/
theorem delimited_cases {p : GoString} (h : colon ∉ behindDrive p) :
    colon ∉ p ∨ ∃ l sep rest, p = [l] ++ colon :: sep :: rest ∧ l ≠ colon ∧
      (sep = slash ∨ sep = backslash) ∧ colon ∉ rest := by
  unfold behindDrive at h
  split at h
  · rename_i l c sep rest
    split at h
    · rename_i hdrive
      obtain ⟨hl, rfl, hsep⟩ := hdrive
      refine Or.inr ⟨l, sep, rest, rfl, ?_, hsep, h⟩
      intro heq
      rw [heq] at hl
      exact absurd hl (by decide)
    · exact Or.inl h
  · exact Or.inl h

theorem whole_of_delimited {p : GoString} (h : colon ∉ behindDrive p) : Whole p := by
  obtain hfree | ⟨l, sep, rest, rfl, hl, hsep, hrest⟩ := delimited_cases h
  · exact whole_of_colonFree hfree
  · exact whole_drive (fun hmem => hl (List.mem_singleton.mp hmem).symm) hsep hrest

theorem fileIs_not_in {p : GoString} (h : colon ∉ behindDrive p) : ¬fileIs <:+: p := by
  intro hinf
  rw [fileIs_eq] at hinf
  obtain hfree | ⟨l, sep, rest, rfl, hl, hsep, hrest⟩ := delimited_cases h
  · exact hfree (hinf.subset List.mem_cons_self)
  · have hl' : colon ∉ [l] := fun hmem => hl (List.mem_singleton.mp hmem).symm
    obtain hpre | hbehind := List.infix_cons_iff.mp (infix_of_infix_append hl' hinf)
    · have hf : (102 : Byte) = sep :=
        (List.cons_prefix_cons.mp (List.cons_prefix_cons.mp hpre).2).1
      obtain rfl | rfl := hsep
      · exact absurd hf (by decide)
      · exact absurd hf (by decide)
    · obtain hmem | hmem := List.mem_cons.mp (hbehind.subset List.mem_cons_self)
      · obtain rfl | rfl := hsep
        · exact absurd hmem (by decide)
        · exact absurd hmem (by decide)
      · exact hrest hmem

/-- Where `:file=` is in an option with a file: in front of the file, or in its quotes. -/
theorem FileOutput.split (f : FileOutput) {what u s : GoString} (hwhat : colon ∉ what)
    (h : what ++ colon :: f.text = u ++ (fileIs ++ s)) :
    (u = what ∧ f.named = true ∧ s = f.file.text ++ f.tail.text) ∨
      ∃ v q, f.file.quoted = true ∧ f.file.path = v ++ (fileIs ++ q) ∧
        s = q ++ quote :: f.tail.text := by
  have htail := f.tail.ends
  obtain ⟨v, rfl, hz⟩ := split_behind hwhat h
  cases v with
  | nil =>
    left
    have hs : f.text = str "file=" ++ s := (List.cons.inj hz).2
    unfold FileOutput.text at hs
    cases hnamed : f.named with
    | true =>
      rw [hnamed, if_pos rfl] at hs
      exact ⟨List.append_nil what, rfl, (List.append_cancel_left hs).symm⟩
    | false =>
      rw [hnamed, if_neg Bool.false_ne_true, List.nil_append] at hs
      refine absurd ?_ (f.unnamed hnamed)
      exact prefix_of_colonFree colon_not_mem_fileIs htail.head ⟨s, hs.symm⟩
  | cons c v =>
    right
    have hname : colon ∉ if f.named then str "file=" else [] := by
      split
      · exact colon_not_mem_fileIs
      · exact List.not_mem_nil
    have hs : f.text = v ++ (fileIs ++ s) := (List.cons.inj hz).2
    obtain ⟨v', -, hv⟩ := split_behind hname hs
    obtain ⟨s', hfile, hs'⟩ := split_tail htail hv
    unfold File.text at hfile
    split at hfile
    · rename_i hquoted
      obtain ⟨v'', q, hp, hq⟩ := split_quoted hfile
      refine ⟨v'', q, hquoted, hp, ?_⟩
      rw [hs', hq, List.append_assoc]
      rfl
    · rename_i hquoted
      have hfree := fileIs_not_in (f.delimited (Bool.eq_false_iff.mpr hquoted))
      refine absurd ?_ hfree
      rw [hfile]
      exact List.infix_append' v' fileIs s'

theorem FileOutput.split_path {f : FileOutput} {v q : GoString} (hquoted : f.file.quoted = true)
    (hpath : f.file.path = v ++ (fileIs ++ q)) (what : GoString) :
    ∃ u, what ++ colon :: f.text = u ++ (fileIs ++ (q ++ quote :: f.tail.text)) ∧
      what.length < u.length := by
  refine ⟨what ++ colon :: ((if f.named then str "file=" else []) ++ quote :: v), ?_, ?_⟩
  · rw [FileOutput.text, File.text, if_pos hquoted, hpath]
    simp only [List.append_assoc, List.cons_append, List.nil_append]
  · rw [List.length_append, List.length_cons]
    omega

theorem FileOutput.text_noSpace (f : FileOutput) : ∀ b ∈ f.text, nonSpace b = true := by
  have hname : ∀ b ∈ (if f.named then str "file=" else []), nonSpace b = true := by
    split
    · decide
    · exact fun b hb => by cases hb
  exact List.forall_mem_append.mpr ⟨hname,
    List.forall_mem_append.mpr ⟨f.file.text_noSpace, f.tail.ends.noSpace⟩⟩

theorem FileOutput.text_named {f : FileOutput} (h : f.named = true) :
    colon :: f.text = fileIs ++ (f.file.text ++ f.tail.text) := by
  rw [FileOutput.text, if_pos h, fileIs_eq]
  rfl

theorem FileOutput.text_unnamed {f : FileOutput} (h : f.named = false) :
    f.text = f.file.text ++ f.tail.text := by
  rw [FileOutput.text, h, if_neg Bool.false_ne_true, List.nil_append]

/-- A `:file=` in a path is in its quotes, so that it is behind the selector. -/
theorem FileOutput.place_of_infix {f : FileOutput} (h : fileIs <:+: f.file.path)
    (what : GoString) : ∃ u s, what ++ colon :: f.text = u ++ (fileIs ++ s) ∧ s ≠ [] ∧
      what.length < u.length := by
  have hquoted : f.file.quoted = true := by
    by_contra hnot
    exact fileIs_not_in (f.delimited (Bool.eq_false_iff.mpr hnot)) h
  obtain ⟨v, q, hpath⟩ := h
  rw [List.append_assoc] at hpath
  obtain ⟨u, hu, hlt⟩ := FileOutput.split_path hquoted hpath.symm what
  exact ⟨u, _, hu, List.append_ne_nil_of_right_ne_nil _ (List.cons_ne_nil _ _), hlt⟩

/-- What the second attempt finds for a file: the text of a file with its name, or what is
behind the last `:file=` in its quotes. -/
theorem FileOutput.second (f : FileOutput) (what : Selector) {after : GoString}
    (hafter : ∀ b ∈ after.head?, nonSpace b = false) :
    (¬fileIs <:+: f.file.path ∧
        matchHere [.many nonSpace, .lit fileIs, .group nonSpace]
            (what.text ++ colon :: f.text ++ after) =
          if f.named then some [f.file.text ++ f.tail.text] else none) ∨
      ∃ v q, f.file.quoted = true ∧ f.file.path = v ++ (fileIs ++ q) ∧
        matchHere [.many nonSpace, .lit fileIs, .group nonSpace]
            (what.text ++ colon :: f.text ++ after) =
          some [q ++ quote :: f.tail.text] := by
  have hy : ∀ b ∈ what.text ++ colon :: f.text, nonSpace b = true := by
    refine List.forall_mem_append.mpr ⟨what.noSpace, ?_⟩
    exact List.forall_mem_cons.mpr ⟨colon_nonSpace, f.text_noSpace⟩
  have hname : ∀ b ∈ fileIs, nonSpace b = true := by decide
  obtain hnone | hsome := matchHere_many_word hy hname hafter
  · left
    refine ⟨fun hin => ?_, ?_⟩
    · obtain ⟨u, s, hu, hs, -⟩ := FileOutput.place_of_infix hin what.text
      exact hs (hnone.2 u s hu)
    · rw [hnone.1]
      split
      · rename_i hnamed
        have hnil := hnone.2 what.text _ (by rw [FileOutput.text_named hnamed])
        exact absurd (List.append_eq_nil_iff.mp hnil).1 f.file.text_ne_nil
      · rfl
  · obtain ⟨u, s, hfound, hu, hs, hlast⟩ := hsome
    obtain hleft | hright := f.split what.noColon hu
    · obtain ⟨rfl, hnamed, rfl⟩ := hleft
      left
      refine ⟨fun hin => ?_, by rw [hfound, if_pos hnamed]⟩
      obtain ⟨u', s', hu', hs', hlt⟩ := FileOutput.place_of_infix hin what.text
      exact absurd (hlast u' s' hu' hs') (Nat.not_le.mpr hlt)
    · obtain ⟨v, q, hquoted, hpath, rfl⟩ := hright
      exact Or.inr ⟨v, q, hquoted, hpath, hfound⟩

/-! ## What is extracted -/

theorem File.outputFile_iff (f : File) (tail : Tail)
    (hdelimited : f.quoted = false → colon ∉ behindDrive f.path) :
    outputFile (f.text ++ tail.text) = f.path ↔
      (f.quoted = true →
        (tail.text ≠ [] ∨ colon ∈ f.path) ∧ f.path.getLast? ≠ some backslash ∧ Whole f.path) := by
  unfold File.text
  cases hquoted : f.quoted with
  | true =>
    rw [if_pos rfl, outputFile_quoted_iff f.unquoted f.nonempty tail.ends]
    exact ⟨fun h _ => h, fun h => h rfl⟩
  | false =>
    rw [if_neg Bool.false_ne_true]
    refine iff_of_true ?_ fun h => by cases h
    exact outputFile_append f.unquoted (whole_of_delimited (hdelimited hquoted)) tail.ends

/-- The drive of a whole path is behind every `:file=` in it. -/
theorem drive_behind {v q : GoString} (h : Whole (v ++ (fileIs ++ q))) :
    ∃ c, (c = slash ∨ c = backslash) ∧ [colon, c] <:+: q := by
  by_contra hnot
  have hfree : ∀ c, c = slash ∨ c = backslash → ¬[colon, c] <:+: fileIs ++ q := by
    intro c hc hin
    rw [fileIs_eq] at hin
    obtain hpre | hbehind := List.infix_cons_iff.mp hin
    · have hf : c = 102 := (List.cons_prefix_cons.mp (List.cons_prefix_cons.mp hpre).2).1
      rw [hf] at hc
      exact absurd hc (by decide)
    · exact hnot ⟨c, hc, infix_of_infix_append colon_not_mem_fileIs hbehind⟩
  have hdriveless : Driveless (fileIs ++ q) := by
    refine ⟨fun b hb => ?_, hfree slash (Or.inl rfl), hfree backslash (Or.inr rfl)⟩
    rw [fileIs_eq] at hb
    cases hb
    decide
  unfold Whole at h
  rw [splitDrive_append hdriveless] at h
  exact h (List.mem_append_right _ (List.mem_append_left q (by decide)))

/-- The third attempt finds the text of the output, where the selector is `gc` alone. -/
theorem third (what : Selector) {z after : GoString} (hz : ∀ b ∈ z, nonSpace b = true)
    (hne : z ≠ []) (hafter : ∀ b ∈ after.head?, nonSpace b = false) (logFile : GoString) :
    attempt (matchHere [.lit [colon], .group nonSpace] (what.text ++ (colon :: z ++ after)))
        outputFile logFile =
      if logFile = [] ∧ what.text = [] then outputFile z else logFile := by
  by_cases hwhat : what.text = []
  · rw [hwhat, third_found hz hafter hne]
    by_cases hlog : logFile = []
    · rw [hlog, attempt_some_nil, if_pos ⟨rfl, rfl⟩]
    · rw [attempt_of_ne hlog, if_neg fun h => hlog h.1]
  · rw [third_of_text what.noColon hafter (Or.inl hwhat), attempt_none, if_neg fun h => hwhat h.2]

theorem FileOutput.text_ne_nil (f : FileOutput) : f.text ≠ [] :=
  List.append_ne_nil_of_right_ne_nil _ (List.append_ne_nil_of_left_ne_nil f.file.text_ne_nil _)

theorem FileOutput.named_ne {f : FileOutput} (hnamed : f.named = true)
    (hquoted : f.file.quoted = true) : outputFile f.text ≠ f.file.path := by
  rw [FileOutput.text, if_pos hnamed, File.text, if_pos hquoted]
  exact outputFile_named_ne f.file.unquoted f.tail.ends

/-- The cut of a file and its tail gives the path where the option says so. -/
theorem extracted_file_iff (what : Selector) {f : FileOutput} (hnot : ¬fileIs <:+: f.file.path) :
    Extracted (.xlog what (.file f)) ↔
      (f.named = false → what.text = []) ∧
        outputFile (f.file.text ++ f.tail.text) = f.file.path := by
  rw [f.file.outputFile_iff f.tail f.delimited]
  unfold Extracted
  constructor
  · rintro ⟨hselector, h⟩
    refine ⟨hselector, fun hquoted => ?_⟩
    obtain ⟨hcut, hlast, hwhole, -⟩ := h hquoted
    exact ⟨hcut, hlast, hwhole⟩
  · rintro ⟨hselector, h⟩
    refine ⟨hselector, fun hquoted => ?_⟩
    obtain ⟨hcut, hlast, hwhole⟩ := h hquoted
    exact ⟨hcut, hlast, hwhole, hnot⟩

/-- Where the file has its name in front of it, the second attempt decides. -/
theorem FileOutput.path_of_named_iff {f : FileOutput} (hnamed : f.named = true) (what : Selector)
    (hnot : ¬fileIs <:+: f.file.path) :
    (if outputFile (f.file.text ++ f.tail.text) = [] ∧ what.text = [] then outputFile f.text
        else outputFile (f.file.text ++ f.tail.text)) = f.file.path ↔
      Extracted (.xlog what (.file f)) := by
  rw [extracted_file_iff what hnot]
  by_cases hsame : outputFile (f.file.text ++ f.tail.text) = f.file.path
  · rw [hsame, if_neg fun h => f.file.nonempty h.1]
    exact iff_of_true rfl ⟨fun h => absurd (h.symm.trans hnamed) Bool.false_ne_true, rfl⟩
  · have hquoted : f.file.quoted = true := by
      by_contra h
      exact hsame ((f.file.outputFile_iff f.tail f.delimited).mpr fun h' => absurd h' h)
    refine iff_of_false ?_ fun h => hsame h.2
    split
    · exact FileOutput.named_ne hnamed hquoted
    · exact hsame

/-- Without the name the third attempt decides, which is only there for `gc` alone. -/
theorem FileOutput.path_of_unnamed_iff {f : FileOutput} (hunnamed : f.named = false)
    (what : Selector) (hnot : ¬fileIs <:+: f.file.path) :
    (if what.text = [] then outputFile f.text else []) = f.file.path ↔
      Extracted (.xlog what (.file f)) := by
  rw [extracted_file_iff what hnot, FileOutput.text_unnamed hunnamed]
  split
  · rename_i hwhat
    exact ⟨fun h => ⟨fun _ => hwhat, h⟩, fun h => h.2⟩
  · rename_i hwhat
    exact iff_of_false (fun h => f.file.nonempty h.symm) fun h => hwhat (h.1 hunnamed)

/-- What is behind a `:file=` in the quotes is not the path, and where nothing is left of it
the output does not give the path either. -/
theorem FileOutput.ne_of_inside {f : FileOutput} {v q : GoString}
    (hquoted : f.file.quoted = true) (hpath : f.file.path = v ++ (fileIs ++ q)) :
    outputFile (q ++ quote :: f.tail.text) ≠ f.file.path ∧
      (outputFile (q ++ quote :: f.tail.text) = [] → outputFile f.text ≠ f.file.path) := by
  have htext : q ++ quote :: f.tail.text = (q ++ [quote]) ++ f.tail.text := by
    rw [List.append_assoc]
    rfl
  rw [htext]
  constructor
  · intro hsame
    have hshort := length_outputFile_le (q ++ [quote]) f.tail.ends
    have hfile : fileIs.length = 6 := by decide
    rw [hsame, hpath, List.length_append, List.length_append, List.length_append, hfile,
      List.length_singleton] at hshort
    omega
  · intro hnil hsame
    cases hnamed : f.named with
    | true => exact FileOutput.named_ne hnamed hquoted hsame
    | false =>
      rw [FileOutput.text_unnamed hnamed] at hsame
      obtain ⟨-, -, hwhole⟩ := (f.file.outputFile_iff f.tail f.delimited).mp hsame hquoted
      rw [hpath] at hwhole
      obtain ⟨c, hc, hdrive⟩ := drive_behind hwhole
      exact outputFile_ne_nil hc f.tail.ends (List.infix_append_of_infix_left hdrive) hnil

theorem attempts_file_iff (what : Selector) (f : FileOutput) {after : GoString}
    (hafter : ∀ b ∈ after.head?, nonSpace b = false) :
    attempts ((GCOption.xlog what (.file f)).text ++ after) = f.file.path ↔
      Extracted (.xlog what (.file f)) := by
  rw [attempts_xlog]
  change attempt (matchHere _ (what.text ++ (colon :: f.text ++ after))) outputFile
    (attempt (matchHere _ (what.text ++ colon :: f.text ++ after)) outputFile []) = _ ↔ _
  rw [third what f.text_noSpace f.text_ne_nil hafter]
  obtain hfree | hinside := f.second what hafter
  · obtain ⟨hnot, hsecond⟩ := hfree
    rw [hsecond]
    cases hnamed : f.named with
    | true =>
      rw [if_pos rfl, attempt_some_nil]
      exact FileOutput.path_of_named_iff hnamed what hnot
    | false =>
      have hnil : ([] : GoString) = [] ∧ what.text = [] ↔ what.text = [] := and_iff_right rfl
      rw [if_neg Bool.false_ne_true, attempt_none, if_congr hnil rfl rfl]
      exact FileOutput.path_of_unnamed_iff hnamed what hnot
  · obtain ⟨v, q, hquoted, hpath, hsecond⟩ := hinside
    obtain ⟨hne, houtput⟩ := FileOutput.ne_of_inside hquoted hpath
    have hinfix : fileIs <:+: f.file.path := ⟨v, q, by rw [hpath, List.append_assoc]⟩
    rw [hsecond, attempt_some_nil]
    refine iff_of_false ?_ fun h => (h.2 hquoted).2.2.2 hinfix
    split
    · rename_i hnil
      exact houtput hnil.1
    · exact hne

/-- What the second attempt does not find for a text without `:file=`. -/
theorem second_none {y after : GoString} (hy : ∀ b ∈ y, nonSpace b = true)
    (hafter : ∀ b ∈ after.head?, nonSpace b = false) (hfree : ∀ u s, y ≠ u ++ (fileIs ++ s)) :
    matchHere [.many nonSpace, .lit fileIs, .group nonSpace] (y ++ after) = none := by
  obtain hnone | hsome :=
    matchHere_many_word hy (by decide : ∀ b ∈ fileIs, nonSpace b = true) hafter
  · exact hnone.1
  · obtain ⟨u, s, -, hu, -⟩ := hsome
    exact absurd hu (hfree u s)

theorem attempts_none (what : Selector) {after : GoString}
    (hafter : ∀ b ∈ after.head?, nonSpace b = false) :
    attempts ((GCOption.xlog what .none).text ++ after) = [] := by
  have hfree : ∀ u s, what.text ≠ u ++ (fileIs ++ s) := by
    intro u s h
    refine what.noColon ?_
    rw [h, fileIs_eq]
    exact List.mem_append_right _ List.mem_cons_self
  have hnil : Output.none.text = [] := rfl
  rw [attempts_xlog, hnil, third_of_text what.noColon hafter (Or.inr rfl), List.append_nil,
    second_none what.noSpace hafter hfree, attempt_none, attempt_none]

/-- A standard output is taken for a file where the selector is `gc` alone. -/
theorem attempts_standard_iff (what : Selector) {name after : GoString} (tail : Tail)
    (hname : name = str "stdout" ∨ name = str "stderr") {output : Output}
    (houtput : output.text = colon :: (name ++ tail.text))
    (hafter : ∀ b ∈ after.head?, nonSpace b = false) :
    attempts ((GCOption.xlog what output).text ++ after) = [] ↔ what.text ≠ [] := by
  have hfacts : colon ∉ name ∧ Unquoted name ∧ (∀ b ∈ name, nonSpace b = true) ∧ name ≠ [] ∧
      ∃ b n, name = b :: n ∧ b ≠ 102 := by
    unfold Unquoted
    obtain rfl | rfl := hname
    · exact ⟨by decide, by decide, by decide, by decide, _, _, rfl, by decide⟩
    · exact ⟨by decide, by decide, by decide, by decide, _, _, rfl, by decide⟩
  obtain ⟨hcolon, hunquoted, hspace, hne, b, n, hb, hnot⟩ := hfacts
  have htext : ∀ b ∈ name ++ tail.text, nonSpace b = true :=
    List.forall_mem_append.mpr ⟨hspace, tail.ends.noSpace⟩
  have hy : ∀ b ∈ what.text ++ colon :: (name ++ tail.text), nonSpace b = true :=
    List.forall_mem_append.mpr ⟨what.noSpace, List.forall_mem_cons.mpr ⟨colon_nonSpace, htext⟩⟩
  have hfree : ∀ u s, what.text ++ colon :: (name ++ tail.text) ≠ u ++ (fileIs ++ s) := by
    intro u s h
    obtain ⟨v, -, hv⟩ := split_behind what.noColon h
    cases v with
    | nil =>
      have hfirst : name ++ tail.text = str "file=" ++ s := (List.cons.inj hv).2
      rw [hb] at hfirst
      exact hnot (List.cons.inj hfirst).1
    | cons c v =>
      obtain ⟨v', -, hv'⟩ := split_behind hcolon (List.cons.inj hv).2
      refine tail.ends.noFile ?_
      rw [hv']
      exact List.infix_append' v' fileIs s
  rw [attempts_xlog, houtput, second_none hy hafter hfree, attempt_none,
    third what htext (List.append_ne_nil_of_left_ne_nil hne _) hafter,
    outputFile_append hunquoted (whole_of_colonFree hcolon) tail.ends]
  by_cases hwhat : what.text = []
  · rw [if_pos ⟨rfl, hwhat⟩]
    exact iff_of_false hne fun h => h hwhat
  · rw [if_neg fun h => hwhat h.2]
    exact iff_of_true rfl hwhat

theorem firstField_eq {s : GoString} (h : s.count comma ≠ 2) : firstField s = s := by
  unfold firstField
  split
  · dsimp only
    rw [length_split, if_neg fun h' => h (by omega)]
  · rfl

theorem firstField_three {a x y : GoString} (ha : comma ∉ a) (hx : comma ∉ x) (hy : comma ∉ y) :
    firstField (a ++ comma :: (x ++ comma :: y)) = a := by
  have hsplit : split (a ++ comma :: (x ++ comma :: y)) comma = [a, x, y] := by
    rw [split, List.splitOn_append_cons_self_of_not_mem ha,
      List.splitOn_append_cons_self_of_not_mem hx, List.splitOn_eq_singleton hy]
  have hmem : comma ∈ a ++ comma :: (x ++ comma :: y) :=
    List.mem_append_right a List.mem_cons_self
  rw [firstField, if_pos ((contains_iff _ _).mpr ((List.singleton_infix_iff _ _).mpr hmem)), hsplit]
  rfl

theorem File.count_text (f : File) : f.text.count comma = f.path.count comma := by
  have hquote : List.count comma [quote] = 0 := by decide
  unfold File.text
  split
  · rw [← List.singleton_append, List.count_append, List.count_append, hquote]
    omega
  · rfl

theorem firstField_iff (r : Rotated) :
    firstField r.text = r.file.path ↔ Extracted (.verbosegclog r) := by
  have hiff := r.file.text_eq_path_iff
  unfold Rotated.text Extracted
  cases hrotation : r.rotation with
  | none =>
    have hcount := r.delimited hrotation
    dsimp only
    rw [firstField_eq (by rw [r.file.count_text]; omega), hiff]
    exact ⟨fun h => ⟨h, fun h' => absurd hrotation h'⟩, fun h => h.1⟩
  | some xy =>
    obtain ⟨x, y⟩ := xy
    dsimp only
    by_cases hcomma : comma ∈ r.file.path
    · have hpos := List.count_pos_iff.mpr hcomma
      have hcount : (r.file.text ++ comma :: (x.text ++ comma :: y.text)).count comma ≠ 2 := by
        rw [List.count_append, List.count_cons_self, List.count_append, List.count_cons_self,
          r.file.count_text]
        omega
      rw [firstField_eq hcount]
      refine iff_of_false (fun heq => ?_) fun h => h.2 (by rw [hrotation]; simp) hcomma
      have hlonger := congrArg (List.count comma) heq
      rw [List.count_append, List.count_cons_self, r.file.count_text] at hlonger
      omega
    · have htext : comma ∉ r.file.text := by
        rw [← List.count_eq_zero, r.file.count_text, List.count_eq_zero]
        exact hcomma
      rw [firstField_three htext x.noComma y.noComma, hiff]
      exact ⟨fun h => ⟨h, fun _ => hcomma⟩, fun h => h.1⟩

theorem extractGCLogPathFromCmdline_eq_path_iff (before : GoString) (o : GCOption)
    (after : GoString) (honly : OnlyOption before o after) :
    extractGCLogPathFromCmdline (before ++ (o.text ++ after)) = o.path ↔ Extracted o := by
  rw [extractGCLogPathFromCmdline_eq honly]
  cases o with
  | loggc f =>
    rw [attempts_loggc f honly.ends]
    exact f.text_eq_path_iff
  | verbosegclog r =>
    rw [attempts_verbosegclog r honly.ends]
    exact firstField_iff r
  | xlog what output =>
    cases output with
    | none => exact iff_of_true (attempts_none what honly.ends) trivial
    | stdout tail => exact attempts_standard_iff what tail (Or.inl rfl) rfl honly.ends
    | stderr tail => exact attempts_standard_iff what tail (Or.inr rfl) rfl honly.ends
    | file f => exact attempts_file_iff what f honly.ends

/-! ## Three command lines -/

def starSelector : Selector := ⟨str "*", by decide, by decide⟩

/-- A file in quotes with a drive, decorators and options. -/
def driveOption : GCOption :=
  .xlog starSelector (.file
    { named := true
      file := ⟨str "F:/tmp/psslogs/gc.log", true, by decide, by decide, by decide⟩
      tail := .options ⟨str "tags,time,uptime,level", by decide, by decide, by decide, by decide⟩
        ⟨str "filecount=10,filesize=10M", by decide, by decide, by decide, by decide⟩
      delimited := by decide
      unnamed := by decide })

/-- A file that is one of five, each of a thousand cycles. -/
def rotatedOption : GCOption :=
  .verbosegclog
    { file := ⟨str "/tmp/verbose.log", false, by decide, by decide, by decide⟩
      rotation := some (⟨str "5", by decide, by decide⟩, ⟨str "1000", by decide, by decide⟩)
      delimited := fun h => by cases h }

theorem extractGCLogPathFromCmdline_drive :
    extractGCLogPathFromCmdline (str "java " ++ (driveOption.text ++ str " -jar app.jar")) =
        str "F:/tmp/psslogs/gc.log" ∧
      extractGCLogPathFromCmdline (str "java " ++ (rotatedOption.text ++ str " -jar app.jar")) =
        str "/tmp/verbose.log" := by
  constructor
  · refine (extractGCLogPathFromCmdline_eq_path_iff (str "java ") driveOption
      (str " -jar app.jar") ⟨by decide, by decide⟩).mpr ⟨fun h => absurd h (by decide), fun _ => ?_⟩
    decide
  · refine (extractGCLogPathFromCmdline_eq_path_iff (str "java ") rotatedOption
      (str " -jar app.jar") ⟨by decide, by decide⟩).mpr ⟨rfl, fun _ => ?_⟩
    decide

/-- A file in quotes alone. -/
def quotedOption : GCOption :=
  .xlog starSelector (.file
    { named := true
      file := ⟨str "/tmp/gc.log", true, by decide, by decide, by decide⟩
      tail := .none
      delimited := by decide
      unnamed := by decide })

/-- Without a colon behind the file its quotes are kept. -/
theorem extractGCLogPathFromCmdline_keeps_quotes :
    OnlyOption (str "java ") quotedOption (str " -jar app.jar") ∧
      quotedOption.text = str "-Xlog:gc*:file=\"/tmp/gc.log\"" ∧
      quotedOption.path = str "/tmp/gc.log" ∧
      extractGCLogPathFromCmdline (str "java " ++ (quotedOption.text ++ str " -jar app.jar")) =
        str "\"/tmp/gc.log\"" := by
  refine ⟨⟨by decide, by decide⟩, by decide, by decide, by decide⟩

end YcAgent.Ondemand.GCPath
