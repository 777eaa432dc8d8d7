import Mathlib.Data.List.Infix

/-!
# Byte strings and the string functions of the Go standard library

A Go string is a sequence of bytes, valid UTF-8 or not. The functions below
follow the documented behaviour of `strings` on bytes; a separator or a pattern
is assumed non-empty where the callers only use non-empty ones.
-/
namespace Go

abbrev Byte := UInt8
abbrev GoString := List Byte

/-- The bytes of a literal. -/
def str (s : String) : GoString := s.toUTF8.data.toList

/-- Before any instance that would go through all bytes. -/
instance (priority := 2000) decidableForallMem (s : GoString) (p : Byte → Prop) [DecidablePred p] :
    Decidable (∀ b ∈ s, p b) := List.decidableBAll p s

instance (priority := 2000) decidableForallMemHead (b? : Option Byte) (p : Byte → Prop)
    [DecidablePred p] : Decidable (∀ b ∈ b?, p b) := Option.decidableForallMem b?

def space : Byte := 32
def dollar : Byte := 36
def newline : Byte := 10
def carriageReturn : Byte := 13

def indexFrom (sub : GoString) (n : Nat) : GoString → Int
  | [] => if sub.isPrefixOf [] then n else -1
  | b :: t => if sub.isPrefixOf (b :: t) then n else indexFrom sub (n + 1) t

/-- `strings.Index`: the offset of the first occurrence, -1 when there is none. -/
def index (s sub : GoString) : Int := indexFrom sub 0 s

theorem indexFrom_nonneg_iff (sub s : GoString) :
    ∀ n : Nat, 0 ≤ indexFrom sub n s ↔ sub <:+: s := by
  induction s with
  | nil =>
    intro n
    simp only [indexFrom, List.isPrefixOf_iff_prefix, List.prefix_nil, List.infix_nil]
    split <;> simp_all
  | cons b t ih =>
    intro n
    simp only [indexFrom, List.isPrefixOf_iff_prefix, List.infix_cons_iff]
    split
    · rename_i h
      simp [h]
    · rename_i h
      rw [ih (n + 1)]
      simp [h]

/-- A non-negative index is how the callers test for an occurrence. -/
theorem index_nonneg_iff (s sub : GoString) : 0 ≤ index s sub ↔ sub <:+: s :=
  indexFrom_nonneg_iff sub s 0

theorem indexFrom_eq_or_le (sub s : GoString) :
    ∀ n : Nat, indexFrom sub n s = -1 ∨ (n : Int) ≤ indexFrom sub n s := by
  induction s with
  | nil =>
    intro n
    rw [indexFrom]
    split
    · exact Or.inr (Int.le_refl _)
    · exact Or.inl rfl
  | cons b t ih =>
    intro n
    rw [indexFrom]
    split
    · exact Or.inr (Int.le_refl _)
    · rcases ih (n + 1) with hnone | hlater
      · exact Or.inl hnone
      · right
        omega

/-- A positive index is an occurrence where the first one is not at the start. -/
theorem index_pos_iff (s sub : GoString) : 0 < index s sub ↔ sub <:+: s ∧ ¬ sub <+: s := by
  rw [← index_nonneg_iff]
  cases s with
  | nil =>
    simp only [index, indexFrom, List.isPrefixOf_iff_prefix]
    split
    · rename_i h
      simp [h]
    · rename_i h
      simp [h]
  | cons b t =>
    simp only [index, indexFrom, List.isPrefixOf_iff_prefix]
    split
    · rename_i h
      simp [h]
    · rename_i h
      have hlater := indexFrom_eq_or_le sub t (0 + 1)
      rw [and_iff_left h]
      omega

/-- `strings.Contains`. -/
def contains (s sub : GoString) : Bool := decide (0 ≤ index s sub)

@[simp] theorem contains_iff (s sub : GoString) : contains s sub = true ↔ sub <:+: s := by
  simp [contains, index_nonneg_iff]

/-- `strings.HasPrefix`. -/
def hasPrefix (s pre : GoString) : Bool := pre.isPrefixOf s

@[simp] theorem hasPrefix_iff (s pre : GoString) : hasPrefix s pre = true ↔ pre <+: s := by
  simp [hasPrefix]

/-- `strings.HasSuffix`. -/
def hasSuffix (s suf : GoString) : Bool := suf.isSuffixOf s

/-- `strings.CutSuffix`. -/
def cutSuffix (s suf : GoString) : Option GoString :=
  if hasSuffix s suf then some (s.take (s.length - suf.length)) else none

/-- `strings.Split` on a separator of one byte. -/
def split (s : GoString) (sep : Byte) : List GoString := s.splitOn sep

theorem length_split (s : GoString) (sep : Byte) : (split s sep).length = s.count sep + 1 := by
  induction s with
  | nil => rfl
  | cons b s ih =>
    rw [split, List.splitOn_cons_eq_if_modifyHead, List.count_cons]
    split
    · rw [List.length_cons]
      exact congrArg (· + 1) ih
    · rw [List.length_modifyHead]
      exact ih

theorem two_le_length_split {s : GoString} {sep : Byte} (h : sep ∈ s) :
    2 ≤ (split s sep).length := by
  have hpos := List.count_pos_iff.mpr h
  rw [length_split]
  omega

/-- `strings.Join`. -/
def join (elems : List GoString) (sep : GoString) : GoString := sep.intercalate elems

/-- `strings.Trim` with a cutset of one byte. -/
def trim (s : GoString) (cut : Byte) : GoString :=
  ((s.dropWhile (· == cut)).reverse.dropWhile (· == cut)).reverse

/-- `filepath.Base` with slashes as separators. -/
def base (path : GoString) : GoString :=
  let slash : Byte := 47
  if path = [] then str "."
  else
    let name := (path.reverse.dropWhile (· == slash)).takeWhile (· != slash)
    if name = [] then [slash] else name.reverse

/-- `strings.ToLower` on the ASCII letters. -/
def toLower (s : GoString) : GoString := s.map fun b => if 65 ≤ b ∧ b ≤ 90 then b + 32 else b

/-- `strings.Replace(s, old, new, 1)`. -/
def replaceFirst (old new : GoString) : GoString → GoString
  | [] => []
  | b :: t =>
    if old.isPrefixOf (b :: t) then new ++ (b :: t).drop old.length
    else b :: replaceFirst old new t

/-- The counter holds how many bytes of the last match are still to be skipped. -/
def replaceAllFrom (old new : GoString) : Nat → GoString → GoString
  | _, [] => []
  | 0, b :: t =>
    if old.isPrefixOf (b :: t) then new ++ replaceAllFrom old new (old.length - 1) t
    else b :: replaceAllFrom old new 0 t
  | k + 1, _ :: t => replaceAllFrom old new k t

/-- `strings.ReplaceAll`. -/
def replaceAll (s old new : GoString) : GoString := replaceAllFrom old new 0 s

theorem replaceFirst_cons_of_no_match {old new : GoString} {b : Byte} {t : GoString}
    (h : ¬ old <+: b :: t) : replaceFirst old new (b :: t) = b :: replaceFirst old new t := by
  rw [replaceFirst, if_neg]
  rwa [List.isPrefixOf_iff_prefix]

/-- What does not hold the first byte of the pattern stays. -/
theorem replaceFirst_append_of_not_mem {c : Byte} {old new w t : GoString} (hw : c ∉ w) :
    replaceFirst (c :: old) new (w ++ t) = w ++ replaceFirst (c :: old) new t := by
  induction w with
  | nil => rfl
  | cons b w ih =>
    obtain ⟨hb, hrest⟩ := not_or.mp (mt List.mem_cons.mpr hw)
    have hno : ¬ c :: old <+: b :: (w ++ t) := fun h => hb (List.cons_prefix_cons.mp h).1
    rw [List.cons_append, replaceFirst_cons_of_no_match hno, ih hrest, List.cons_append]

theorem replaceFirst_append_self {c : Byte} (old new t : GoString) :
    replaceFirst (c :: old) new (c :: old ++ t) = new ++ t := by
  have hpre : (c :: old).isPrefixOf (c :: (old ++ t)) = true := by simp
  rw [List.cons_append, replaceFirst, if_pos hpre, ← List.cons_append, List.drop_left]

theorem replaceAll_cons_of_no_match {old new : GoString} {b : Byte} {t : GoString}
    (h : ¬ old <+: b :: t) : replaceAll (b :: t) old new = b :: replaceAll t old new := by
  rw [replaceAll, replaceAllFrom, if_neg]
  · rfl
  · rwa [List.isPrefixOf_iff_prefix]

theorem replaceAll_append_of_not_mem {c : Byte} {old new w t : GoString} (hw : c ∉ w) :
    replaceAll (w ++ t) (c :: old) new = w ++ replaceAll t (c :: old) new := by
  induction w with
  | nil => rfl
  | cons b w ih =>
    obtain ⟨hb, hrest⟩ := not_or.mp (mt List.mem_cons.mpr hw)
    have hno : ¬ c :: old <+: b :: (w ++ t) := fun h => hb (List.cons_prefix_cons.mp h).1
    rw [List.cons_append, replaceAll_cons_of_no_match hno, ih hrest, List.cons_append]

theorem replaceAllFrom_skip (old new w t : GoString) :
    replaceAllFrom old new w.length (w ++ t) = replaceAllFrom old new 0 t := by
  induction w with
  | nil => rfl
  | cons b w ih => exact ih

theorem replaceAll_append_self {c : Byte} (old new t : GoString) :
    replaceAll (c :: old ++ t) (c :: old) new = new ++ replaceAll t (c :: old) new := by
  have hpre : (c :: old).isPrefixOf (c :: (old ++ t)) = true := by simp
  rw [replaceAll, List.cons_append, replaceAllFrom, if_pos hpre]
  show new ++ replaceAllFrom (c :: old) new old.length (old ++ t) = _
  rw [replaceAllFrom_skip]
  rfl

theorem replaceAll_single (s : GoString) (c : Byte) (new : GoString) :
    replaceAll s [c] new = s.flatMap fun b => if b = c then new else [b] := by
  induction s with
  | nil => rfl
  | cons b s ih =>
    rw [List.flatMap_cons, ← ih]
    by_cases hb : b = c
    · subst hb
      rw [if_pos rfl]
      exact replaceAll_append_self [] new s
    · have hno : ¬ [c] <+: b :: s := fun h => hb (List.cons_prefix_cons.mp h).1.symm
      rw [if_neg hb, replaceAll_cons_of_no_match hno]
      rfl

theorem not_mem_replaceAll_single {c : Byte} {new : GoString} (hnew : c ∉ new) (s : GoString) :
    c ∉ replaceAll s [c] new := by
  rw [replaceAll_single, List.mem_flatMap]
  rintro ⟨b, -, hb⟩
  split at hb
  · exact hnew hb
  · rename_i hne
    exact hne (List.mem_singleton.mp hb).symm

theorem replaceAll_of_not_infix {s old new : GoString} (h : ¬ old <:+: s) :
    replaceAll s old new = s := by
  induction s with
  | nil => rfl
  | cons b s ih =>
    rw [replaceAll_cons_of_no_match fun hpre => h hpre.isInfix,
      ih fun hin => h (hin.trans (List.suffix_cons b s).isInfix)]

/-- The UTF-8 forms of the runes `unicode.IsSpace` accepts. -/
def spaces : List GoString :=
  [[9], [10], [11], [12], [13], [32], [0xC2, 0x85], [0xC2, 0xA0], [0xE1, 0x9A, 0x80],
   [0xE2, 0x80, 0x80], [0xE2, 0x80, 0x81], [0xE2, 0x80, 0x82], [0xE2, 0x80, 0x83],
   [0xE2, 0x80, 0x84], [0xE2, 0x80, 0x85], [0xE2, 0x80, 0x86], [0xE2, 0x80, 0x87],
   [0xE2, 0x80, 0x88], [0xE2, 0x80, 0x89], [0xE2, 0x80, 0x8A], [0xE2, 0x80, 0xA8],
   [0xE2, 0x80, 0xA9], [0xE2, 0x80, 0xAF], [0xE2, 0x81, 0x9F], [0xE3, 0x80, 0x80]]

def dropLeading (ws : List GoString) : Nat → GoString → GoString
  | 0, s => s
  | fuel + 1, s =>
    match ws.find? (·.isPrefixOf s) with
    | some w => dropLeading ws fuel (s.drop w.length)
    | none => s

/-- `strings.TrimSpace`. Each round drops at least one byte, so the length is fuel enough. -/
def trimSpace (s : GoString) : GoString :=
  let left := dropLeading spaces s.length s
  (dropLeading (spaces.map List.reverse) left.length left.reverse).reverse

example : trimSpace (str " \t1234 x\r\n") = str "1234 x" := by decide

theorem dropLeading_suffix (ws : List GoString) (fuel : Nat) (s : GoString) :
    dropLeading ws fuel s <:+ s := by
  induction fuel generalizing s with
  | zero => exact List.suffix_refl s
  | succ fuel ih =>
    unfold dropLeading
    split
    · exact (ih _).trans (List.drop_suffix _ _)
    · exact List.suffix_refl s

theorem dropLeading_of_none {ws : List GoString} {s : GoString} (h : ∀ w ∈ ws, ¬ w <+: s)
    (fuel : Nat) : dropLeading ws fuel s = s := by
  cases fuel with
  | zero => rfl
  | succ fuel =>
    have hfind : ws.find? (·.isPrefixOf s) = none := by
      refine List.find?_eq_none.mpr fun w hw => ?_
      rw [List.isPrefixOf_iff_prefix]
      exact h w hw
    rw [dropLeading, hfind]

/-- With enough rounds nothing is left to drop. -/
theorem not_prefix_dropLeading {ws : List GoString} (hws : [] ∉ ws) {fuel : Nat} {s : GoString}
    (hfuel : s.length ≤ fuel) {w : GoString} (hw : w ∈ ws) : ¬ w <+: dropLeading ws fuel s := by
  induction fuel generalizing s with
  | zero =>
    have hs : s = [] := List.length_eq_zero_iff.mp (by omega)
    intro h
    rw [dropLeading, hs, List.prefix_nil] at h
    exact hws (h ▸ hw)
  | succ fuel ih =>
    unfold dropLeading
    split
    · rename_i v hv
      have hvmem : v ∈ ws := List.mem_of_find?_eq_some hv
      have hvlen : v.length ≠ 0 := fun h => hws (List.length_eq_zero_iff.mp h ▸ hvmem)
      refine ih ?_
      rw [List.length_drop]
      omega
    · rename_i hnone
      have hnot := List.find?_eq_none.mp hnone w hw
      rwa [List.isPrefixOf_iff_prefix] at hnot

theorem nil_not_mem_spaces : [] ∉ spaces := by decide

theorem nil_not_mem_spaces_reverse : [] ∉ spaces.map List.reverse := by decide

theorem mem_of_mem_trimSpace {s : GoString} {b : Byte} (h : b ∈ trimSpace s) : b ∈ s := by
  have hback := (dropLeading_suffix _ _ _).subset (List.mem_reverse.mp h)
  exact (dropLeading_suffix _ _ _).subset (List.mem_reverse.mp hback)

/-- A byte that is printed. -/
def IsGraphic (b : Byte) : Prop := 33 ≤ b ∧ b ≤ 126

instance : DecidablePred IsGraphic := fun _ => inferInstanceAs (Decidable (_ ∧ _))

theorem dropLeading_of_graphic {ws : List GoString} {s : GoString}
    (hws : ∀ w ∈ ws, ∃ b ∈ w.head?, ¬ IsGraphic b) (hs : ∀ b ∈ s.head?, IsGraphic b)
    (fuel : Nat) : dropLeading ws fuel s = s := by
  refine dropLeading_of_none (fun w hw hpre => ?_) fuel
  obtain ⟨b, hb, hnot⟩ := hws w hw
  obtain ⟨t, rfl⟩ := hpre
  exact hnot (hs b (List.mem_head?_append_of_mem_head? hb))

/-- White space within a text stays. -/
theorem trimSpace_of_ends {s : GoString} (hfirst : ∀ b ∈ s.head?, IsGraphic b)
    (hlast : ∀ b ∈ s.getLast?, IsGraphic b) : trimSpace s = s := by
  have hspaces : ∀ w ∈ spaces, ∃ b ∈ w.head?, ¬ IsGraphic b := by decide
  have hreverse : ∀ w ∈ spaces.map List.reverse, ∃ b ∈ w.head?, ¬ IsGraphic b := by decide
  have hback : ∀ b ∈ s.reverse.head?, IsGraphic b := by
    rw [List.head?_reverse]
    exact hlast
  rw [trimSpace, dropLeading_of_graphic hspaces hfirst, dropLeading_of_graphic hreverse hback,
    List.reverse_reverse]

theorem trimSpace_of_graphic {s : GoString} (hs : ∀ b ∈ s, IsGraphic b) : trimSpace s = s :=
  trimSpace_of_ends (fun b hb => hs b (List.mem_of_mem_head? hb))
    fun b hb => hs b (List.mem_of_getLast? hb)

/-- No white space is left in front or behind. -/
theorem trimSpace_trimSpace (s : GoString) : trimSpace (trimSpace s) = trimSpace s := by
  obtain ⟨left, hleft⟩ : ∃ left, dropLeading spaces s.length s = left := ⟨_, rfl⟩
  obtain ⟨back, hback⟩ : ∃ back,
      dropLeading (spaces.map List.reverse) left.length left.reverse = back := ⟨_, rfl⟩
  have htrim : trimSpace s = back.reverse := by
    rw [← hback, ← hleft]
    rfl
  have hprefix : back.reverse <+: left := by
    rw [← List.reverse_suffix, List.reverse_reverse, ← hback]
    exact dropLeading_suffix _ _ _
  have hfront : dropLeading spaces back.reverse.length back.reverse = back.reverse := by
    refine dropLeading_of_none ?_ _
    intro w hw hpre
    exact not_prefix_dropLeading nil_not_mem_spaces (Nat.le_refl _) hw
      (hleft ▸ hpre.trans hprefix)
  have hbehind : dropLeading (spaces.map List.reverse) back.reverse.length back = back := by
    refine dropLeading_of_none ?_ _
    intro w hw hpre
    refine not_prefix_dropLeading nil_not_mem_spaces_reverse ?_ hw (hback.symm ▸ hpre)
    rw [List.length_reverse]
  rw [htrim]
  simp only [trimSpace, hfront, List.reverse_reverse, hbehind]

end Go
