import YcAgent.Base.FilePath

/-!
# The file of a `-Xlog` output

`GetFileFromJEP158` cuts the decorators and the options off at a colon. The colon of a drive
is skipped: the cut is behind the first `:\` or, where there is none, the first `:/`.
Last, quotes are trimmed from both ends, each with a backslash before it or not.
-/
namespace YcAgent.Capture.JEP158

open Go

def colon : Byte := 58
def backslash : Byte := 92
def quote : Byte := 34

/-- `strings.SplitAfterN` into two parts, at a separator that occurs. -/
def splitAfter (sep : GoString) : GoString → GoString × GoString
  | [] => ([], [])
  | b :: s =>
    if sep.isPrefixOf (b :: s) then (sep, (b :: s).drop sep.length)
    else (b :: (splitAfter sep s).1, (splitAfter sep s).2)

/-- The part up to the drive, and what is behind it. -/
def splitDrive (s : GoString) : GoString × GoString :=
  if contains s [colon, backslash] then splitAfter [colon, backslash] s
  else if contains s [colon, slash] then splitAfter [colon, slash] s
  else ([], s)

/-- What is collected before the quotes are trimmed. -/
def cutSections (s : GoString) : GoString :=
  (splitDrive s).1 ++ (splitDrive s).2.takeWhile (· != colon)

/-- `strings.Trim` with a cutset. -/
def trimAny (s cutset : GoString) : GoString :=
  ((s.dropWhile (cutset.contains ·)).reverse.dropWhile (cutset.contains ·)).reverse

def trimQuotes (s : GoString) : GoString :=
  let logFile := FilePath.trimPrefix (FilePath.trimSuffix s [backslash, quote]) [backslash, quote]
  trimAny logFile [quote, space]

def getFileFromJEP158 (s : GoString) : GoString := trimQuotes (cutSections s)

/-! ## The drive -/

/-- What may follow a path without a change to its drive. -/
structure Driveless (tail : GoString) : Prop where
  head : ∀ b ∈ tail.head?, b ≠ slash ∧ b ≠ backslash
  noSlash : ¬[colon, slash] <:+: tail
  noBackslash : ¬[colon, backslash] <:+: tail

/-- There is nothing behind the drive to be cut off. -/
def Whole (s : GoString) : Prop := colon ∉ (splitDrive s).2

instance : DecidablePred Whole := fun s => inferInstanceAs (Decidable (colon ∉ (splitDrive s).2))

theorem splitAfter_append {sep z : GoString} (h : sep <:+: z) (tail : GoString) :
    splitAfter sep (z ++ tail) = ((splitAfter sep z).1, (splitAfter sep z).2 ++ tail) := by
  induction z with
  | nil =>
    obtain rfl := List.infix_nil.mp h
    cases tail <;> rfl
  | cons b z ih =>
    have hlength := h.length_le
    by_cases hpre : sep <+: b :: z
    · have happ : sep <+: b :: (z ++ tail) := hpre.trans (List.prefix_append _ tail)
      rw [List.cons_append, splitAfter, splitAfter,
        if_pos (List.isPrefixOf_iff_prefix.mpr hpre), if_pos (List.isPrefixOf_iff_prefix.mpr happ),
        ← List.cons_append, List.drop_append_of_le_length hlength]
    · have hrest : sep <:+: z := (List.infix_cons_iff.mp h).resolve_left hpre
      have hmiss : ¬sep <+: b :: (z ++ tail) := fun happ => hpre
        (List.prefix_of_prefix_length_le happ (List.prefix_append (b :: z) tail) hlength)
      rw [List.cons_append, splitAfter, splitAfter,
        if_neg (mt List.isPrefixOf_iff_prefix.mp hpre),
        if_neg (mt List.isPrefixOf_iff_prefix.mp hmiss), ih hrest]

theorem splitAfter_prepend {c : Byte} {sep a : GoString} (ha : c ∉ a) (z : GoString) :
    splitAfter (c :: sep) (a ++ z) =
      (a ++ (splitAfter (c :: sep) z).1, (splitAfter (c :: sep) z).2) := by
  induction a with
  | nil => rfl
  | cons b a ih =>
    obtain ⟨hb, hrest⟩ := not_or.mp (mt List.mem_cons.mpr ha)
    have hmiss : ¬c :: sep <+: b :: (a ++ z) := fun h => hb (List.cons_prefix_cons.mp h).1
    rw [List.cons_append, splitAfter, if_neg (mt List.isPrefixOf_iff_prefix.mp hmiss), ih hrest]
    rfl

theorem splitAfter_join (sep z : GoString) :
    (splitAfter sep z).1 ++ (splitAfter sep z).2 = z := by
  induction z with
  | nil => rfl
  | cons b z ih =>
    rw [splitAfter]
    split
    · rename_i hpre
      obtain ⟨t, ht⟩ := List.isPrefixOf_iff_prefix.mp hpre
      rw [← ht, List.drop_left]
    · rw [List.cons_append, ih]

theorem infix_splitAfter {sep z : GoString} (h : sep <:+: z) : sep <:+: (splitAfter sep z).1 := by
  induction z with
  | nil =>
    obtain rfl := List.infix_nil.mp h
    exact List.nil_infix
  | cons b z ih =>
    rw [splitAfter]
    split
    · exact List.infix_rfl
    · rename_i hpre
      have hrest := (List.infix_cons_iff.mp h).resolve_left (mt List.isPrefixOf_iff_prefix.mpr hpre)
      exact (ih hrest).trans (List.suffix_cons b _).isInfix

theorem infix_append_driveless {c : Byte} {z tail : GoString} (htail : ¬[colon, c] <:+: tail)
    (hhead : ∀ b ∈ tail.head?, b ≠ c) : [colon, c] <:+: z ++ tail ↔ [colon, c] <:+: z := by
  constructor
  · intro h
    obtain h | h | h := List.infix_append_iff_ne_nil.mp h
    · exact h
    · exact absurd h htail
    · obtain ⟨l₁, l₂, hl₁, hl₂, heq, -, hpre⟩ := h
      have hl : l₁ = [colon] ∧ l₂ = [c] := by
        match l₁, l₂, hl₁, hl₂, heq with
        | [a], [b], _, _, heq =>
          cases heq
          exact ⟨rfl, rfl⟩
        | [a], b :: b' :: l, _, _, heq => cases heq
        | a :: a' :: l, b :: l', _, _, heq =>
          have := congrArg List.length heq
          simp only [List.length_append, List.length_cons, List.length_nil] at this
          omega
      obtain ⟨t, ht⟩ := hl.2 ▸ hpre
      exact absurd rfl (hhead c (by rw [← ht]; rfl))
  · exact fun h => List.infix_append_of_infix_left h

theorem splitDrive_append {tail : GoString} (h : Driveless tail) (z : GoString) :
    splitDrive (z ++ tail) = ((splitDrive z).1, (splitDrive z).2 ++ tail) := by
  have hback : contains (z ++ tail) [colon, backslash] = contains z [colon, backslash] := by
    refine Bool.eq_iff_iff.mpr ?_
    rw [contains_iff, contains_iff]
    exact infix_append_driveless h.noBackslash fun b hb => (h.head b hb).2
  have hslash : contains (z ++ tail) [colon, slash] = contains z [colon, slash] := by
    refine Bool.eq_iff_iff.mpr ?_
    rw [contains_iff, contains_iff]
    exact infix_append_driveless h.noSlash fun b hb => (h.head b hb).1
  unfold splitDrive
  rw [hback, hslash]
  split
  · rename_i hdrive
    exact splitAfter_append ((contains_iff _ _).mp hdrive) tail
  · split
    · rename_i hdrive
      exact splitAfter_append ((contains_iff _ _).mp hdrive) tail
    · rfl

theorem splitDrive_join (z : GoString) : (splitDrive z).1 ++ (splitDrive z).2 = z := by
  unfold splitDrive
  split
  · exact splitAfter_join _ z
  · split
    · exact splitAfter_join _ z
    · rfl

/-- What starts with a colon is behind a text that has none. -/
theorem infix_of_infix_append {a l z : GoString} (ha : colon ∉ a)
    (h : colon :: l <:+: a ++ z) : colon :: l <:+: z := by
  induction a with
  | nil => exact h
  | cons b a ih =>
    obtain ⟨hb, hrest⟩ := not_or.mp (mt List.mem_cons.mpr ha)
    have hpre : ¬colon :: l <+: b :: (a ++ z) := fun h => hb (List.cons_prefix_cons.mp h).1
    exact ih hrest ((List.infix_cons_iff.mp h).resolve_left hpre)

/-- A text without a colon in front of the drive stays in front of it. -/
theorem splitDrive_prepend {a : GoString} (ha : colon ∉ a) (z : GoString) :
    splitDrive (a ++ z) = (a ++ (splitDrive z).1, (splitDrive z).2) ∨
      (splitDrive (a ++ z) = ([], a ++ z) ∧ splitDrive z = ([], z)) := by
  have hdrives : ∀ c, contains (a ++ z) [colon, c] = contains z [colon, c] := by
    intro c
    refine Bool.eq_iff_iff.mpr ?_
    rw [contains_iff, contains_iff]
    exact ⟨infix_of_infix_append ha, List.infix_append_of_infix_right⟩
  unfold splitDrive
  rw [hdrives, hdrives]
  split
  · exact Or.inl (splitAfter_prepend ha z)
  · split
    · exact Or.inl (splitAfter_prepend ha z)
    · exact Or.inr ⟨rfl, rfl⟩

/-- A drive and nothing with a colon behind it is whole. -/
theorem whole_drive {sep : Byte} {a rest : GoString} (ha : colon ∉ a)
    (hsep : sep = slash ∨ sep = backslash) (hrest : colon ∉ rest) :
    Whole (a ++ colon :: sep :: rest) := by
  have hsplit : splitDrive (colon :: sep :: rest) = ([colon, sep], rest) := by
    have hfirst : ∀ c, contains (colon :: c :: rest) [colon, c] = true := fun c =>
      (contains_iff _ _).mpr (List.prefix_append [colon, c] rest).isInfix
    have hcut : ∀ c, splitAfter [colon, c] (colon :: c :: rest) = ([colon, c], rest) := by
      intro c
      have hpre : [colon, c] <+: colon :: c :: rest := List.prefix_append [colon, c] rest
      rw [splitAfter, if_pos (List.isPrefixOf_iff_prefix.mpr hpre)]
      rfl
    unfold splitDrive
    obtain rfl | rfl := hsep
    · rw [if_neg, if_pos (hfirst _), hcut]
      rw [contains_iff]
      intro h
      obtain hpre | hbehind := List.infix_cons_iff.mp h
      · have hslash := (List.cons_prefix_cons.mp (List.cons_prefix_cons.mp hpre).2).1
        exact absurd hslash (by decide)
      · obtain hmem | hmem := List.mem_cons.mp (hbehind.subset List.mem_cons_self)
        · exact absurd hmem (by decide)
        · exact hrest hmem
    · rw [if_pos (hfirst _), hcut]
  unfold Whole
  obtain h | h := splitDrive_prepend ha (colon :: sep :: rest)
  · rw [h, hsplit]
    exact hrest
  · rw [hsplit] at h
    exact absurd (Prod.mk.inj h.2).1 (List.cons_ne_nil _ _)

theorem whole_of_colonFree {p : GoString} (h : colon ∉ p) : Whole p := by
  intro hmem
  refine h ?_
  rw [← splitDrive_join p]
  exact List.mem_append_right _ hmem

/-! ## The cut -/

theorem takeWhile_colon {s : GoString} (h : colon ∉ s) : s.takeWhile (· != colon) = s := by
  rw [List.takeWhile_eq_self_iff]
  intro b hb
  exact bne_iff_ne.mpr fun heq => h (heq ▸ hb)

theorem colon_not_mem_takeWhile (s : GoString) : colon ∉ s.takeWhile (· != colon) := by
  intro h
  have hne : (colon != colon) = true := List.mem_takeWhile_imp (p := (· != colon)) h
  exact absurd rfl (bne_iff_ne.mp hne)

theorem cutSections_isPrefix (z : GoString) : cutSections z <+: z := by
  conv_rhs => rw [← splitDrive_join z]
  exact (List.prefix_append_right_inj _).mpr (List.takeWhile_prefix _)

theorem cutSections_of_whole {z : GoString} (h : Whole z) : cutSections z = z := by
  rw [cutSections, takeWhile_colon h, splitDrive_join]

theorem cutSections_ne_of_not_whole {z : GoString} (h : ¬Whole z) : cutSections z ≠ z := by
  intro heq
  refine h fun hmem => ?_
  have htake : (splitDrive z).2.takeWhile (· != colon) = (splitDrive z).2 := by
    refine (List.append_right_inj (splitDrive z).1).mp ?_
    rw [splitDrive_join]
    exact heq
  rw [← htake] at hmem
  exact colon_not_mem_takeWhile _ hmem

/-- The sections start with a colon that is not one of a drive. -/
theorem cutSections_append {tail : GoString} (hdrive : Driveless tail)
    (hhead : ∀ b ∈ tail.head?, b = colon) (z : GoString) :
    cutSections (z ++ tail) = cutSections z := by
  have htail : tail.takeWhile (· != colon) = [] := by
    cases tail with
    | nil => rfl
    | cons b tail => rw [List.takeWhile_cons, hhead b rfl]; rfl
  rw [cutSections, splitDrive_append hdrive, cutSections]
  dsimp only
  rw [List.takeWhile_append]
  split
  · rename_i hall
    rw [htail, List.append_nil, (List.takeWhile_prefix _).eq_of_length hall]
  · rfl

theorem cutSections_prepend {a : GoString} (ha : colon ∉ a) (z : GoString) :
    cutSections (a ++ z) = a ++ cutSections z := by
  have hpos : ∀ b ∈ a, (b != colon) = true :=
    fun b hb => bne_iff_ne.mpr fun heq => ha (heq ▸ hb)
  unfold cutSections
  obtain h | h := splitDrive_prepend ha z
  · rw [h, List.append_assoc]
  · rw [h.1, h.2, List.nil_append, List.nil_append, List.takeWhile_append_of_pos hpos]

theorem whole_prepend_iff {a : GoString} (ha : colon ∉ a) (z : GoString) :
    Whole (a ++ z) ↔ Whole z := by
  unfold Whole
  obtain h | h := splitDrive_prepend ha z
  · rw [h]
  · rw [h.1, h.2, List.mem_append, not_or]
    exact and_iff_right ha

theorem whole_append_iff {tail : GoString} (hdrive : Driveless tail) (htail : colon ∉ tail)
    (z : GoString) : Whole (z ++ tail) ↔ Whole z := by
  unfold Whole
  rw [splitDrive_append hdrive, List.mem_append, not_or]
  exact and_iff_left htail

/-- Where something is cut off, what is behind it is cut off too. -/
theorem cutSections_append_of_not_whole {z tail : GoString} (hdrive : Driveless tail)
    (h : ¬Whole z) : cutSections (z ++ tail) = cutSections z := by
  have hmem : colon ∈ (splitDrive z).2 := not_not.mp h
  rw [cutSections, splitDrive_append hdrive, cutSections]
  dsimp only
  rw [List.takeWhile_append, if_neg]
  intro hall
  have heq := (List.takeWhile_prefix (· != colon)).eq_of_length hall
  rw [← heq] at hmem
  exact colon_not_mem_takeWhile _ hmem

theorem colon_mem_cutSections {c : Byte} {z : GoString} (hc : c = slash ∨ c = backslash)
    (h : [colon, c] <:+: z) : colon ∈ cutSections z := by
  have hdrive : colon ∈ (splitDrive z).1 := by
    have hmem : ∀ d, [colon, d] <:+: z → colon ∈ (splitAfter [colon, d] z).1 :=
      fun d hd => (infix_splitAfter hd).subset List.mem_cons_self
    unfold splitDrive
    split
    · rename_i hback
      exact hmem _ ((contains_iff _ _).mp hback)
    · split
      · rename_i hslash
        exact hmem _ ((contains_iff _ _).mp hslash)
      · rename_i hback hslash
        obtain rfl | rfl := hc
        · exact absurd ((contains_iff _ _).mpr h) hslash
        · exact absurd ((contains_iff _ _).mpr h) hback
  exact List.mem_append_left _ hdrive

/-! ## The quotes -/

/-- A byte that may be trimmed. -/
def Trimmed (b : Byte) : Prop := b = quote ∨ b = backslash ∨ b = space

/-- A text with nothing in it that is trimmed at any place. -/
def Unquoted (p : GoString) : Prop := ∀ b ∈ p, b ≠ quote ∧ b ≠ space

theorem trimSuffix_append (s suf : GoString) :
    ∃ y, s = FilePath.trimSuffix s suf ++ y ∧ ∀ b ∈ y, b ∈ suf := by
  unfold FilePath.trimSuffix
  split
  · rename_i hsuf
    obtain ⟨t, rfl⟩ := List.isSuffixOf_iff_suffix.mp hsuf
    refine ⟨suf, ?_, fun b hb => hb⟩
    rw [List.length_append, Nat.add_sub_cancel, List.take_left]
  · exact ⟨[], (List.append_nil s).symm, fun b hb => by cases hb⟩

theorem trimPrefix_append (s pre : GoString) :
    ∃ x, s = x ++ FilePath.trimPrefix s pre ∧ ∀ b ∈ x, b ∈ pre := by
  unfold FilePath.trimPrefix
  split
  · rename_i hpre
    obtain ⟨t, rfl⟩ := List.isPrefixOf_iff_prefix.mp hpre
    exact ⟨pre, by rw [List.drop_left], fun b hb => hb⟩
  · exact ⟨[], rfl, fun b hb => by cases hb⟩

theorem trimAny_append (s cutset : GoString) :
    ∃ x y, s = x ++ (trimAny s cutset ++ y) ∧ (∀ b ∈ x, b ∈ cutset) ∧ ∀ b ∈ y, b ∈ cutset := by
  have hmem : ∀ t : GoString, ∀ b ∈ t.takeWhile (cutset.contains ·), b ∈ cutset :=
    fun t b hb => List.contains_iff_mem.mp (List.mem_takeWhile_imp (p := (cutset.contains ·)) hb)
  refine ⟨s.takeWhile (cutset.contains ·),
    ((s.dropWhile (cutset.contains ·)).reverse.takeWhile (cutset.contains ·)).reverse,
    ?_, hmem s, fun b hb => hmem _ b (List.mem_reverse.mp hb)⟩
  rw [trimAny, ← List.reverse_append, List.takeWhile_append_dropWhile, List.reverse_reverse,
    List.takeWhile_append_dropWhile]

/-- Only bytes of these three are trimmed, and only at the ends. -/
theorem trimQuotes_append (s : GoString) :
    ∃ x y, s = x ++ (trimQuotes s ++ y) ∧ (∀ b ∈ x, Trimmed b) ∧ ∀ b ∈ y, Trimmed b := by
  have hesc : ∀ b ∈ [backslash, quote], Trimmed b := by
    unfold Trimmed
    decide
  have hset : ∀ b ∈ [quote, space], Trimmed b := by
    unfold Trimmed
    decide
  unfold trimQuotes
  dsimp only
  obtain ⟨y₁, hs, hy₁⟩ := trimSuffix_append s [backslash, quote]
  generalize FilePath.trimSuffix s [backslash, quote] = s₁ at hs ⊢
  obtain ⟨x₂, hs₁, hx₂⟩ := trimPrefix_append s₁ [backslash, quote]
  generalize FilePath.trimPrefix s₁ [backslash, quote] = s₂ at hs₁ ⊢
  obtain ⟨x₃, y₃, hs₂, hx₃, hy₃⟩ := trimAny_append s₂ [quote, space]
  generalize trimAny s₂ [quote, space] = s₃ at hs₂ ⊢
  refine ⟨x₂ ++ x₃, y₃ ++ y₁, ?_, ?_, ?_⟩
  · rw [hs, hs₁, hs₂]
    simp only [List.append_assoc]
  · exact List.forall_mem_append.mpr ⟨fun b hb => hesc b (hx₂ b hb), fun b hb => hset b (hx₃ b hb)⟩
  · exact List.forall_mem_append.mpr ⟨fun b hb => hset b (hy₃ b hb), fun b hb => hesc b (hy₁ b hb)⟩

theorem length_trimQuotes_le (s : GoString) : (trimQuotes s).length ≤ s.length := by
  obtain ⟨x, y, hs, -⟩ := trimQuotes_append s
  conv_rhs => rw [hs, List.length_append, List.length_append]
  omega

theorem mem_trimQuotes {b : Byte} {s : GoString} (hb : b ∈ s) (h : ¬Trimmed b) :
    b ∈ trimQuotes s := by
  obtain ⟨x, y, hs, hx, hy⟩ := trimQuotes_append s
  rw [hs, List.mem_append, List.mem_append] at hb
  obtain hb | hb | hb := hb
  · exact absurd (hx b hb) h
  · exact hb
  · exact absurd (hy b hb) h

/-- What is trimmed around a text that starts and ends with something else. -/
theorem trimAny_between {x p y cutset : GoString} (hx : ∀ b ∈ x, b ∈ cutset)
    (hhead : ∀ b ∈ p.head?, b ∉ cutset) (hlast : ∀ b ∈ p.getLast?, b ∉ cutset)
    (hy : ∀ b ∈ y, b ∈ cutset) : trimAny (x ++ (p ++ y)) cutset = p := by
  have hdrop : ∀ q r : GoString, (∀ b ∈ q.head?, b ∉ cutset) → (∀ b ∈ r, b ∈ cutset) →
      (q ++ r).dropWhile (cutset.contains ·) = if q = [] then [] else q ++ r := by
    intro q r hq hr
    cases q with
    | nil =>
      rw [if_pos rfl, List.nil_append, List.dropWhile_eq_nil_iff]
      exact fun b hb => List.contains_iff_mem.mpr (hr b hb)
    | cons b q =>
      have hb : ¬(cutset.contains b = true) := fun h => hq b rfl (List.contains_iff_mem.mp h)
      rw [if_neg (List.cons_ne_nil b q), List.cons_append, List.dropWhile_cons, if_neg hb]
  have hreverse : ∀ b ∈ p.reverse.head?, b ∉ cutset := by
    rw [List.head?_reverse]
    exact hlast
  rw [trimAny, List.dropWhile_append_of_pos fun b hb => List.contains_iff_mem.mpr (hx b hb),
    hdrop p y hhead hy]
  split
  · rename_i hnil
    rw [hnil]
    rfl
  · rename_i hne
    rw [List.reverse_append, List.dropWhile_append_of_pos fun b hb =>
      List.contains_iff_mem.mpr (hy b (List.mem_reverse.mp hb)), ← List.append_nil p.reverse,
      hdrop p.reverse [] hreverse (fun b hb => by cases hb),
      if_neg (mt List.reverse_eq_nil_iff.mp hne), List.append_nil, List.reverse_reverse]

theorem trimAny_wrapped {x p y cutset : GoString} (hx : ∀ b ∈ x, b ∈ cutset)
    (hp : ∀ b ∈ p, b ∉ cutset) (hy : ∀ b ∈ y, b ∈ cutset) :
    trimAny (x ++ (p ++ y)) cutset = p :=
  trimAny_between hx (fun b hb => hp b (List.mem_of_mem_head? hb))
    (fun b hb => hp b (List.mem_of_mem_getLast? hb)) hy

theorem trimSuffix_of_not {s suf : GoString} (h : ¬suf <:+ s) : FilePath.trimSuffix s suf = s := by
  rw [FilePath.trimSuffix, hasSuffix, if_neg (mt List.isSuffixOf_iff_suffix.mp h)]

theorem trimPrefix_of_not {s pre : GoString} (h : ¬pre <+: s) : FilePath.trimPrefix s pre = s := by
  rw [FilePath.trimPrefix, hasPrefix, if_neg (mt List.isPrefixOf_iff_prefix.mp h)]

theorem Unquoted.not_mem_cutset {p : GoString} (h : Unquoted p) : ∀ b ∈ p, b ∉ [quote, space] := by
  intro b hb hmem
  obtain hq | hs := List.mem_pair.mp hmem
  · exact (h b hb).1 hq
  · exact (h b hb).2 hs

theorem trimQuotes_unquoted {p : GoString} (h : Unquoted p) : trimQuotes p = p := by
  have hmem : quote ∉ p := fun hq => (h quote hq).1 rfl
  have hany := trimAny_wrapped (x := []) (y := []) (fun b hb => by cases hb) h.not_mem_cutset
    (fun b hb => by cases hb)
  rw [List.nil_append, List.append_nil] at hany
  unfold trimQuotes
  dsimp only
  rw [trimSuffix_of_not fun hsuf => hmem (hsuf.subset (List.mem_cons_of_mem _ List.mem_cons_self)),
    trimPrefix_of_not fun hpre => hmem (hpre.subset (List.mem_cons_of_mem _ List.mem_cons_self)),
    hany]

theorem quote_not_escape (s : GoString) : ¬[backslash, quote] <+: quote :: s :=
  fun h => absurd (List.cons_prefix_cons.mp h).1 (by decide)

/-- A quote in front only, as the cut leaves it. -/
theorem trimQuotes_opened {p : GoString} (h : Unquoted p) : trimQuotes (quote :: p) = p := by
  have hsuf : ¬[backslash, quote] <:+ quote :: p := by
    intro hsuf
    obtain heq | hrest := List.suffix_cons_iff.mp hsuf
    · exact absurd (List.cons.inj heq).1 (by decide)
    · exact (h quote (hrest.subset (List.mem_cons_of_mem _ List.mem_cons_self))).1 rfl
  have hany := trimAny_wrapped (x := [quote]) (y := []) (by decide) h.not_mem_cutset
    (fun b hb => by cases hb)
  rw [List.append_nil] at hany
  unfold trimQuotes
  dsimp only
  rw [trimSuffix_of_not hsuf, trimPrefix_of_not (quote_not_escape p)]
  exact hany

/-- The closing quote is escaped where a backslash ends the text. -/
theorem getLast?_of_escape {p : GoString} (h : [backslash, quote] <:+ quote :: (p ++ [quote])) :
    p.getLast? = some backslash := by
  obtain ⟨t, ht⟩ := h
  have hinit : t ++ [backslash] = quote :: p := by
    refine (List.append_left_inj [quote]).mp ?_
    rw [List.append_assoc]
    exact ht
  have hgetLast := congrArg List.getLast? hinit
  rw [List.getLast?_concat, List.getLast?_cons] at hgetLast
  cases hp : p.getLast? with
  | none =>
    rw [hp] at hgetLast
    exact absurd (Option.some.inj hgetLast) (by decide)
  | some b =>
    rw [hp] at hgetLast
    exact hgetLast.symm

theorem trimSuffix_escape (p : GoString) :
    FilePath.trimSuffix (quote :: (p ++ [backslash] ++ [quote])) [backslash, quote] =
      quote :: p := by
  have heq : quote :: (p ++ [backslash] ++ [quote]) = (quote :: p) ++ [backslash, quote] := by
    simp only [List.cons_append, List.append_assoc, List.nil_append]
  rw [heq, FilePath.trimSuffix, hasSuffix,
    if_pos (List.isSuffixOf_iff_suffix.mpr (List.suffix_append _ _)), List.length_append,
    Nat.add_sub_cancel, List.take_left]

/-- Quotes around a text take a backslash at its end with them. -/
theorem trimQuotes_quoted {p : GoString} (h : Unquoted p) :
    trimQuotes (quote :: (p ++ [quote])) =
      if p.getLast? = some backslash then p.dropLast else p := by
  unfold trimQuotes
  dsimp only
  split
  · rename_i hlast
    obtain ⟨p₀, rfl⟩ : ∃ p₀, p = p₀ ++ [backslash] := List.getLast?_eq_some_iff.mp hlast
    have hp₀ : Unquoted p₀ := fun b hb => h b (List.mem_append_left _ hb)
    have hany := trimAny_wrapped (x := [quote]) (y := []) (by decide) hp₀.not_mem_cutset
      (fun b hb => by cases hb)
    rw [List.append_nil] at hany
    rw [trimSuffix_escape, trimPrefix_of_not (quote_not_escape p₀), List.dropLast_concat]
    exact hany
  · rename_i hlast
    have hany := trimAny_wrapped (x := [quote]) (y := [quote]) (by decide) h.not_mem_cutset
      (by decide)
    rw [trimSuffix_of_not (mt getLast?_of_escape hlast), trimPrefix_of_not (quote_not_escape _)]
    exact hany

end YcAgent.Capture.JEP158
