import YcAgent.Base.FilePath
import YcAgent.Base.Utf8

/-!
# Glob patterns

A question mark stands for one character that is no separator, a star for any number of
them, and any other byte for itself.
-/
namespace Go

def star : Byte := 42
def questionMark : Byte := 63

/-- What is left of a text behind the characters a star may take. -/
def starRests : GoString → List GoString
  | [] => [[]]
  | b :: t => (b :: t) :: if b = slash then [] else starRests t

def globMatch : GoString → GoString → Bool
  | [], s => s.isEmpty
  | c :: pattern, s =>
    if c = star then (starRests s).any (globMatch pattern)
    else if c = questionMark then
      match s with
      | [] => false
      | b :: _ => b != slash && globMatch pattern (s.drop (runeLen s))
    else
      match s with
      | [] => false
      | b :: t => b == c && globMatch pattern t

/-- The text matches the pattern. -/
def Matches (pattern s : GoString) : Prop := globMatch pattern s = true

instance (pattern s : GoString) : Decidable (Matches pattern s) :=
  inferInstanceAs (Decidable (_ = true))

def IsMeta (b : Byte) : Prop := b = star ∨ b = questionMark

instance : DecidablePred IsMeta := fun _ => inferInstanceAs (Decidable (_ ∨ _))

theorem mem_starRests {s rest : GoString} :
    rest ∈ starRests s ↔ ∃ taken, s = taken ++ rest ∧ slash ∉ taken := by
  induction s with
  | nil =>
    constructor
    · intro h
      rw [starRests, List.mem_singleton] at h
      exact ⟨[], by rw [h]; rfl, List.not_mem_nil⟩
    · intro ⟨taken, htaken, _⟩
      rw [(List.append_eq_nil_iff.mp htaken.symm).2]
      exact List.mem_singleton.mpr rfl
  | cons b t ih =>
    rw [starRests, List.mem_cons]
    constructor
    · intro h
      rcases h with rfl | h
      · exact ⟨[], rfl, List.not_mem_nil⟩
      · by_cases hb : b = slash
        · rw [if_pos hb] at h
          cases h
        · rw [if_neg hb, ih] at h
          obtain ⟨taken, rfl, hno⟩ := h
          refine ⟨b :: taken, rfl, ?_⟩
          intro hmem
          rcases List.mem_cons.mp hmem with hmem | hmem
          · exact hb hmem.symm
          · exact hno hmem
    · intro ⟨taken, htaken, hno⟩
      cases taken with
      | nil => exact Or.inl htaken.symm
      | cons c taken =>
        rw [List.cons_append, List.cons.injEq] at htaken
        obtain ⟨rfl, rfl⟩ := htaken
        have hb : b ≠ slash := fun h => hno (h ▸ List.mem_cons_self)
        refine Or.inr ?_
        rw [if_neg hb, ih]
        exact ⟨taken, rfl, fun h => hno (List.mem_cons_of_mem b h)⟩

theorem globMatch_cons (c : Byte) (pattern s : GoString) :
    globMatch (c :: pattern) s =
      if c = star then (starRests s).any (globMatch pattern)
      else if c = questionMark then
        match s with
        | [] => false
        | b :: _ => b != slash && globMatch pattern (s.drop (runeLen s))
      else
        match s with
        | [] => false
        | b :: t => b == c && globMatch pattern t := by
  cases s with
  | nil => rfl
  | cons b t => rfl

@[simp] theorem matches_nil {s : GoString} : Matches [] s ↔ s = [] := by
  rw [Matches, globMatch, List.isEmpty_iff]

theorem matches_star {pattern s : GoString} :
    Matches (star :: pattern) s ↔
      ∃ taken rest, s = taken ++ rest ∧ slash ∉ taken ∧ Matches pattern rest := by
  rw [Matches, globMatch_cons, if_pos rfl, List.any_eq_true]
  constructor
  · intro ⟨rest, hrest, hmatch⟩
    obtain ⟨taken, hs, hno⟩ := mem_starRests.mp hrest
    exact ⟨taken, rest, hs, hno, hmatch⟩
  · intro ⟨taken, rest, hs, hno, hmatch⟩
    exact ⟨rest, mem_starRests.mpr ⟨taken, hs, hno⟩, hmatch⟩

theorem matches_question {pattern s : GoString} :
    Matches (questionMark :: pattern) s ↔
      s ≠ [] ∧ s.head? ≠ some slash ∧ Matches pattern (s.drop (runeLen s)) := by
  rw [Matches, globMatch_cons, if_neg (by decide), if_pos rfl]
  cases s with
  | nil => simp
  | cons b t => simp [Matches]

theorem matches_literal {c : Byte} (hc : ¬ IsMeta c) {pattern s : GoString} :
    Matches (c :: pattern) s ↔ ∃ t, s = c :: t ∧ Matches pattern t := by
  have hstar : c ≠ star := fun h => hc (Or.inl h)
  have hquestion : c ≠ questionMark := fun h => hc (Or.inr h)
  rw [Matches, globMatch_cons, if_neg hstar, if_neg hquestion]
  cases s with
  | nil => simp
  | cons b t =>
    rw [Bool.and_eq_true, beq_iff_eq]
    constructor
    · intro ⟨hb, hmatch⟩
      exact ⟨t, by rw [hb], hmatch⟩
    · intro ⟨u, hu, hmatch⟩
      rw [List.cons.injEq] at hu
      obtain ⟨rfl, rfl⟩ := hu
      exact ⟨rfl, hmatch⟩

/-- A literal part in front of a pattern stands in front of the text. -/
theorem matches_append {front : GoString} (hfront : ∀ c ∈ front, ¬ IsMeta c)
    {pattern s : GoString} :
    Matches (front ++ pattern) s ↔ ∃ t, s = front ++ t ∧ Matches pattern t := by
  induction front generalizing s with
  | nil =>
    constructor
    · intro h
      exact ⟨s, rfl, h⟩
    · intro ⟨t, ht, h⟩
      rw [ht]
      exact h
  | cons c front ih =>
    obtain ⟨hc, hrest⟩ := List.forall_mem_cons.mp hfront
    rw [List.cons_append, matches_literal hc]
    constructor
    · intro ⟨t, ht, h⟩
      obtain ⟨u, rfl, hu⟩ := (ih hrest).mp h
      exact ⟨u, ht, hu⟩
    · intro ⟨u, hu, h⟩
      exact ⟨front ++ u, hu, (ih hrest).mpr ⟨u, rfl, h⟩⟩

/-- A text in front of a pattern matches itself, whatever it holds. -/
theorem matches_append_self (front : GoString) {pattern s : GoString} (h : Matches pattern s) :
    Matches (front ++ pattern) (front ++ s) := by
  induction front with
  | nil => exact h
  | cons c front ih =>
    by_cases hstar : c = star
    · subst hstar
      exact matches_star.mpr ⟨[star], front ++ s, rfl, by decide, ih⟩
    · by_cases hquestion : c = questionMark
      · subst hquestion
        refine matches_question.mpr ⟨List.cons_ne_nil _ _, by simp [questionMark, slash], ?_⟩
        rw [List.cons_append, runeLen_of_ascii (by decide)]
        exact ih
      · exact (matches_literal (fun hmeta => hmeta.elim hstar hquestion)).mpr ⟨_, rfl, ih⟩

/-- One character that a question mark stands for. -/
def Character (x : GoString) : Prop := validRuneLen? x = some x.length ∧ slash ∉ x

theorem character_of_ascii {b : Byte} (hb : b < 0x80) (hslash : b ≠ slash) : Character [b] := by
  refine ⟨?_, fun h => hslash (List.mem_singleton.mp h).symm⟩
  rw [validRuneLen?, followers, if_pos hb]
  rfl

theorem matches_character {x pattern s : GoString} (hx : Character x) (h : Matches pattern s) :
    Matches (questionMark :: pattern) (x ++ s) := by
  obtain ⟨hlen, hslash⟩ := hx
  have hne : x ≠ [] := by
    intro hnil
    rw [hnil] at hlen
    cases hlen
  have hrune : runeLen (x ++ s) = x.length := by
    rw [runeLen, validRuneLen?_append hlen]
    rfl
  refine matches_question.mpr ⟨by simp [hne], ?_, ?_⟩
  · cases x with
    | nil => exact absurd rfl hne
    | cons b x =>
      intro hhead
      exact hslash (Option.some.inj hhead ▸ List.mem_cons_self)
  · rw [hrune, List.drop_left]
    exact h

theorem matches_characters {x pattern s : GoString} (hx : ∀ b ∈ x, b < 0x80 ∧ b ≠ slash)
    (h : Matches pattern s) :
    Matches (List.replicate x.length questionMark ++ pattern) (x ++ s) := by
  induction x with
  | nil => exact h
  | cons b x ih =>
    obtain ⟨⟨hascii, hslash⟩, hrest⟩ := List.forall_mem_cons.mp hx
    have hfirst := matches_character (character_of_ascii hascii hslash) (ih hrest)
    exact hfirst

/-- A byte that is no wildcard is matched by itself, so the text has as many of it. -/
theorem count_le_of_matches {c : Byte} (hc : ¬ IsMeta c) {pattern s : GoString}
    (h : Matches pattern s) : pattern.count c ≤ s.count c := by
  induction pattern generalizing s with
  | nil => exact Nat.zero_le _
  | cons b pattern ih =>
    by_cases hstar : b = star
    · subst hstar
      obtain ⟨taken, rest, rfl, _, hrest⟩ := matches_star.mp h
      have hne : star ≠ c := fun he => hc (Or.inl he.symm)
      rw [List.count_cons_of_ne hne, List.count_append]
      exact Nat.le_add_left_of_le (ih hrest)
    · by_cases hquestion : b = questionMark
      · subst hquestion
        obtain ⟨_, _, hrest⟩ := matches_question.mp h
        have hne : questionMark ≠ c := fun he => hc (Or.inr he.symm)
        rw [List.count_cons_of_ne hne]
        exact (ih hrest).trans (List.Sublist.count_le c (List.drop_sublist _ s))
      · obtain ⟨t, rfl, hrest⟩ :=
          (matches_literal (fun hmeta => hmeta.elim hstar hquestion)).mp h
        have := ih hrest
        rw [List.count_cons, List.count_cons]
        omega

example : Matches (str "gc.*12-????.log") (str "gc.pid12-2024.log") := by decide

end Go
