import Mathlib.Data.List.DropRight

/-!
# Lines of a text

A line ends behind its separator; the last one may have none. `lastLines` is what a
reader who wants the end of a text expects to see of it.
-/
namespace Text

section Parts

variable {α : Type*}

/-- Puts a letter in front of the first line. -/
def consLine (b : α) : List (List α) → List (List α)
  | [] => [[b]]
  | l :: ls => (b :: l) :: ls

theorem length_consLine_of_ne_nil (b : α) {ls : List (List α)} (h : ls ≠ []) :
    (consLine b ls).length = ls.length := by
  cases ls with
  | nil => exact absurd rfl h
  | cons l ls => rfl

theorem flatten_consLine (b : α) (ls : List (List α)) :
    (consLine b ls).flatten = b :: ls.flatten := by
  cases ls <;> rfl

theorem length_flatten_rtake_lt {ls : List (List α)} (hne : ∀ l ∈ ls, l ≠ []) {n : Nat}
    (hn : n < ls.length) :
    ((ls.rtake n).flatten).length < ((ls.rtake (n + 1)).flatten).length := by
  obtain ⟨k, hk⟩ : ∃ k, ls.length = n + 1 + k := ⟨ls.length - (n + 1), by omega⟩
  have hklt : k < ls.length := by omega
  have hdrop : ls.rtake (n + 1) = ls[k] :: ls.rtake n := by
    rw [List.rtake, List.rtake]
    rw [show ls.length - (n + 1) = k by omega, show ls.length - n = k + 1 by omega]
    exact List.drop_eq_getElem_cons hklt
  have hpos := List.length_pos_iff.mpr (hne ls[k] (List.getElem_mem hklt))
  rw [hdrop, List.flatten_cons, List.length_append]
  omega

end Parts

variable {α : Type*} [DecidableEq α] (nl : α)

/-- The lines of a text, each with its separator. -/
def lines : List α → List (List α)
  | [] => []
  | b :: t => if b = nl then [b] :: lines t else consLine b (lines t)

/-- The last `n` lines, or all of them where there are no more. -/
def lastLines (n : Nat) (s : List α) : List α := ((lines nl s).rtake n).flatten

/-- The text ends in a line without a separator. -/
def Unterminated (s : List α) : Prop := s ≠ [] ∧ s.getLast? ≠ some nl

instance (s : List α) : Decidable (Unterminated nl s) := inferInstanceAs (Decidable (_ ∧ _))

variable {nl}

/-- The lines of a text, one after another, are the text. -/
theorem flatten_lines (s : List α) : (lines nl s).flatten = s := by
  induction s with
  | nil => rfl
  | cons b t ih =>
    rw [lines]
    split
    · rw [List.flatten_cons, ih, List.singleton_append]
    · rw [flatten_consLine, ih]

theorem lines_ne_nil {s : List α} (h : s ≠ []) : lines nl s ≠ [] := by
  intro hnil
  have hflat : (lines nl s).flatten = s := flatten_lines s
  rw [hnil] at hflat
  exact h hflat.symm

theorem ne_nil_of_mem_lines {s l : List α} (h : l ∈ lines nl s) : l ≠ [] := by
  induction s generalizing l with
  | nil => cases h
  | cons b t ih =>
    rw [lines] at h
    split at h
    · rcases List.mem_cons.mp h with rfl | h
      · exact List.cons_ne_nil _ _
      · exact ih h
    · cases hls : lines nl t with
      | nil =>
        rw [hls, consLine, List.mem_singleton] at h
        exact h ▸ List.cons_ne_nil _ _
      | cons l' ls =>
        rw [hls, consLine] at h
        rcases List.mem_cons.mp h with rfl | h
        · exact List.cons_ne_nil _ _
        · exact ih (hls ▸ List.mem_cons_of_mem _ h)

/-- Behind a separator a new line starts. -/
theorem lines_append_nl (u t : List α) :
    lines nl (u ++ nl :: t) = lines nl (u ++ [nl]) ++ lines nl t := by
  induction u with
  | nil => simp only [List.nil_append, lines, if_true, List.singleton_append]
  | cons b u ih =>
    simp only [List.cons_append, lines, ih]
    split
    · rfl
    · cases hls : lines nl (u ++ [nl]) with
      | nil => exact absurd hls (lines_ne_nil (by simp))
      | cons l ls => rfl

theorem lines_append_of_not_mem {l : List α} (hl : nl ∉ l) (t : List α) :
    lines nl (l ++ nl :: t) = (l ++ [nl]) :: lines nl t := by
  induction l with
  | nil => simp [lines]
  | cons b l ih =>
    have hb : b ≠ nl := (List.ne_of_not_mem_cons hl).symm
    rw [List.cons_append, lines, if_neg hb, ih (List.not_mem_of_not_mem_cons hl)]
    rfl

/-- Lines that are written one behind another are read back. -/
theorem lines_flatMap {ls : List (List α)} (hls : ∀ l ∈ ls, nl ∉ l) :
    lines nl (ls.flatMap (· ++ [nl])) = ls.map (· ++ [nl]) := by
  induction ls with
  | nil => rfl
  | cons l ls ih =>
    obtain ⟨hl, hls⟩ := List.forall_mem_cons.mp hls
    rw [List.flatMap_cons, List.append_assoc, List.singleton_append, lines_append_of_not_mem hl,
      ih hls, List.map_cons]

omit [DecidableEq α] in
theorem unterminated_cons_cons (b c : α) (t : List α) :
    Unterminated nl (b :: c :: t) ↔ Unterminated nl (c :: t) := by
  unfold Unterminated
  rw [List.getLast?_cons_cons]
  simp

/-- Every separator ends a line, and a last line without one counts too. -/
theorem length_lines (s : List α) :
    (lines nl s).length = s.count nl + if Unterminated nl s then 1 else 0 := by
  induction s with
  | nil => simp [lines, Unterminated]
  | cons b t ih =>
    cases t with
    | nil =>
      by_cases hb : b = nl
      · simp [lines, hb, Unterminated]
      · simp [lines, hb, Unterminated, consLine]
    | cons c t =>
      rw [lines, List.count_cons]
      split
      · rename_i hb
        simp only [List.length_cons, ih, unterminated_cons_cons, hb, beq_self_eq_true, if_true]
        omega
      · rename_i hb
        rw [length_consLine_of_ne_nil b (lines_ne_nil (List.cons_ne_nil c t)), ih]
        simp only [unterminated_cons_cons, beq_iff_eq, hb, if_false, Nat.add_zero]

theorem lastLines_eq_self {n : Nat} {s : List α} (h : (lines nl s).length ≤ n) :
    lastLines nl n s = s := by
  rw [lastLines, List.rtake, Nat.sub_eq_zero_of_le h, List.drop_zero, flatten_lines]

/-- What starts behind a separator is the end of the text that has as many lines. -/
theorem lastLines_append_nl (u t : List α) :
    lastLines nl (lines nl t).length (u ++ nl :: t) = t := by
  rw [lastLines, lines_append_nl, List.rtake, List.length_append, Nat.add_sub_cancel,
    List.drop_left, flatten_lines]

/-- One line less is less text, unless there are not that many lines. -/
theorem lastLines_succ_eq_iff (n : Nat) (s : List α) :
    lastLines nl n s = lastLines nl (n + 1) s ↔ (lines nl s).length ≤ n := by
  constructor
  · intro h
    by_contra hlt
    have hne : ∀ l ∈ lines nl s, l ≠ [] := fun l hl => ne_nil_of_mem_lines hl
    have hless := length_flatten_rtake_lt hne (Nat.lt_of_not_le hlt)
    unfold lastLines at h
    rw [h] at hless
    exact Nat.lt_irrefl _ hless
  · intro h
    rw [lastLines_eq_self h, lastLines_eq_self (Nat.le_succ_of_le h)]

end Text
