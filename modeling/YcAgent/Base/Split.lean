import Mathlib.Data.List.Basic
import Mathlib.Algebra.BigOperators.Group.List.Basic
import Mathlib.Algebra.GroupWithZero.Nat

/-!
# Splitting at a separator

Pieces with a separator between them have what holds of all letters of each, and a separator of
one letter is in none of the pieces that it splits a text into.

A separator of several letters is found from the left, and what follows a match is searched
from behind it. One whose first letter does not come back in it cannot overlap itself, and a
list of texts that do not contain it is what is found between the separators.
-/
namespace Text

section Pieces

variable {α : Type*} {sep : α}

theorem not_mem_of_mem_splitOn [BEq α] [LawfulBEq α] {s piece : List α}
    (h : piece ∈ s.splitOn sep) : sep ∉ piece := by
  induction s generalizing piece with
  | nil =>
    rw [List.splitOn_nil, List.mem_singleton] at h
    rw [h]
    exact List.not_mem_nil
  | cons b s ih =>
    rw [List.splitOn_cons_eq_if_modifyHead] at h
    by_cases hb : b = sep
    · rw [if_pos (beq_iff_eq.mpr hb)] at h
      rcases List.mem_cons.mp h with rfl | h
      · exact List.not_mem_nil
      · exact ih h
    · rw [if_neg (by simpa using hb)] at h
      cases hsplit : s.splitOn sep with
      | nil => exact absurd hsplit (List.splitOn_ne_nil _ _)
      | cons first rest =>
        rw [hsplit, List.modifyHead_cons] at h
        rcases List.mem_cons.mp h with rfl | h
        · have hfirst : sep ∉ first := ih (by rw [hsplit]; exact List.mem_cons_self)
          exact List.not_mem_cons_of_ne_of_not_mem (Ne.symm hb) hfirst
        · exact ih (by rw [hsplit]; exact List.mem_cons_of_mem _ h)

theorem infix_intercalate {between piece : List α} {pieces : List (List α)}
    (hpiece : piece ∈ pieces) : piece <:+: between.intercalate pieces := by
  induction pieces with
  | nil => cases hpiece
  | cons first rest ih =>
    cases rest with
    | nil =>
      have hone : piece = between.intercalate [first] := by
        rw [List.mem_singleton.mp hpiece, List.intercalate_singleton]
      exact hone.symm ▸ List.infix_refl piece
    | cons second rest =>
      rw [List.intercalate_cons_cons]
      rcases List.mem_cons.mp hpiece with rfl | hpiece
      · exact (List.prefix_append _ _).isInfix.trans (List.prefix_append _ _).isInfix
      · exact (ih hpiece).trans (List.suffix_append _ _).isInfix

theorem infix_of_mem_splitOn [BEq α] [LawfulBEq α] {s piece : List α}
    (h : piece ∈ s.splitOn sep) : piece <:+: s := by
  have hwhole : [sep].intercalate (s.splitOn sep) = s := List.intercalate_splitOn sep
  rw [← hwhole]
  exact infix_intercalate h

theorem sublist_intercalate {between piece : List α} {pieces : List (List α)}
    (hpiece : piece ∈ pieces) : piece.Sublist (between.intercalate pieces) :=
  (infix_intercalate hpiece).sublist

theorem sublist_of_mem_splitOn [BEq α] [LawfulBEq α] {s piece : List α}
    (h : piece ∈ s.splitOn sep) : piece.Sublist s :=
  (infix_of_mem_splitOn h).sublist

/-- Where there is a separator, every piece is shorter than the whole. -/
theorem length_lt_of_mem_splitOn [BEq α] [LawfulBEq α] {s piece : List α} (hsep : sep ∈ s)
    (h : piece ∈ s.splitOn sep) : piece.length < s.length := by
  have hsub := sublist_of_mem_splitOn h
  refine Nat.lt_of_le_of_ne hsub.length_le fun heq => ?_
  have hpiece := hsub.eq_of_length heq
  exact not_mem_of_mem_splitOn h (hpiece ▸ hsep)

theorem mem_intercalate {between : List α} {b : α} {pieces : List (List α)}
    (h : b ∈ between.intercalate pieces) : b ∈ between ∨ ∃ piece ∈ pieces, b ∈ piece := by
  induction pieces with
  | nil => cases h
  | cons first rest ih =>
    cases rest with
    | nil => exact Or.inr ⟨first, List.mem_cons_self, by rwa [List.intercalate_singleton] at h⟩
    | cons second rest =>
      rw [List.intercalate_cons_cons, List.append_assoc, List.mem_append, List.mem_append] at h
      rcases h with h | h | h
      · exact Or.inr ⟨first, List.mem_cons_self, h⟩
      · exact Or.inl h
      · refine (ih h).imp_right fun hpiece => ?_
        obtain ⟨piece, hmem, hb⟩ := hpiece
        exact ⟨piece, List.mem_cons_of_mem _ hmem, hb⟩

/-- What holds of the letters between the pieces holds of all letters when it does of theirs. -/
theorem forall_mem_intercalate {between : List α} {P : α → Prop} (hbetween : ∀ b ∈ between, P b)
    (pieces : List (List α)) :
    (∀ b ∈ between.intercalate pieces, P b) ↔ ∀ piece ∈ pieces, ∀ b ∈ piece, P b := by
  constructor
  · intro h piece hpiece b hb
    exact h b ((sublist_intercalate hpiece).mem hb)
  · intro h b hb
    rcases mem_intercalate hb with hb | ⟨piece, hpiece, hb⟩
    · exact hbetween b hb
    · exact h piece hpiece b hb

/-- With two pieces or more there is a separator. -/
theorem mem_intercalate_of_two_le {pieces : List (List α)} (h : 2 ≤ pieces.length) :
    sep ∈ [sep].intercalate pieces := by
  match pieces with
  | [] => exact absurd h (Nat.not_succ_le_zero 1)
  | [_] => exact absurd h (Nat.not_succ_le_self 1)
  | first :: second :: rest =>
    rw [List.intercalate_cons_cons]
    exact List.mem_append_left _ (List.mem_append_right _ (List.mem_singleton_self sep))

theorem length_intercalate {pieces : List (List α)} (h : pieces ≠ []) :
    ([sep].intercalate pieces).length + 1 = (pieces.map List.length).sum + pieces.length := by
  induction pieces with
  | nil => exact absurd rfl h
  | cons first rest ih =>
    cases rest with
    | nil =>
      rw [List.intercalate_singleton, List.map_singleton, List.sum_singleton, List.length_singleton]
    | cons second rest =>
      have hrest := ih (List.cons_ne_nil second rest)
      rw [List.intercalate_cons_cons, List.length_append, List.length_append,
        List.length_singleton, List.map_cons, List.sum_cons, List.length_cons]
      omega

theorem count_intercalate [BEq α] [LawfulBEq α] {b : α} (hb : b ≠ sep)
    (pieces : List (List α)) :
    ([sep].intercalate pieces).count b = (pieces.map (List.count b)).sum := by
  induction pieces with
  | nil => rfl
  | cons first rest ih =>
    cases rest with
    | nil => rw [List.intercalate_singleton, List.map_singleton, List.sum_singleton]
    | cons second rest =>
      rw [List.intercalate_cons_cons, List.append_assoc, List.count_append, List.count_append, ih,
        List.count_singleton, beq_eq_false_iff_ne.mpr (Ne.symm hb), List.map_cons, List.sum_cons]
      simp

end Pieces

variable {α : Type*} [DecidableEq α]

/-- The counter holds how many letters of the last match are still to be skipped. -/
def splitFrom (sep : List α) : Nat → List α → List (List α)
  | _, [] => [[]]
  | 0, b :: t =>
    if sep.isPrefixOf (b :: t) then [] :: splitFrom sep (sep.length - 1) t
    else (splitFrom sep 0 t).modifyHead (b :: ·)
  | k + 1, _ :: t => splitFrom sep k t

/-- `strings.Split` on a separator that is not empty. -/
def splitAll (sep s : List α) : List (List α) := splitFrom sep 0 s

section Any

variable {sep : List α}

theorem splitFrom_ne_nil (sep : List α) (k : Nat) (s : List α) : splitFrom sep k s ≠ [] := by
  induction s generalizing k with
  | nil => cases k <;> exact List.cons_ne_nil _ _
  | cons b t ih =>
    cases k with
    | zero =>
      rw [splitFrom]
      split
      · exact List.cons_ne_nil _ _
      · cases hrest : splitFrom sep 0 t with
        | nil => exact absurd hrest (ih 0)
        | cons first rest => exact List.cons_ne_nil _ _
    | succ k => exact ih k

theorem splitFrom_skip (sep w t : List α) :
    splitFrom sep w.length (w ++ t) = splitFrom sep 0 t := by
  induction w with
  | nil => rfl
  | cons b w ih => exact ih

/-- The pieces with the separator between them are what was split. -/
theorem intercalate_splitFrom (hsep : sep ≠ []) (k : Nat) (s : List α) :
    sep.intercalate (splitFrom sep k s) = s.drop k := by
  induction s generalizing k with
  | nil => cases k <;> rfl
  | cons b t ih =>
    cases k with
    | succ k => exact ih k
    | zero =>
      rw [splitFrom, List.drop_zero]
      split
      · rename_i hpre
        obtain ⟨rest, hrest⟩ := List.isPrefixOf_iff_prefix.mp hpre
        rw [List.intercalate_cons_of_ne_nil (splitFrom_ne_nil _ _ _), ih, List.nil_append]
        cases sep with
        | nil => exact absurd rfl hsep
        | cons a r =>
          obtain ⟨rfl, rfl⟩ := List.cons.inj hrest
          have hdrop : (r ++ rest).drop r.length = rest := List.drop_left
          exact congrArg (a :: r ++ ·) hdrop
      · have ht := ih 0
        cases hrest : splitFrom sep 0 t with
        | nil => exact absurd hrest (splitFrom_ne_nil sep 0 t)
        | cons first rest =>
          rw [hrest, List.drop_zero] at ht
          rw [List.modifyHead_cons, ← ht]
          cases rest with
          | nil => rw [List.intercalate_singleton, List.intercalate_singleton]
          | cons second rest => rw [List.intercalate_cons_cons, List.intercalate_cons_cons]; rfl

theorem intercalate_splitAll (hsep : sep ≠ []) (s : List α) :
    sep.intercalate (splitAll sep s) = s :=
  intercalate_splitFrom hsep 0 s

/-- The first piece of a search that starts at once begins the text. -/
theorem prefix_of_splitFrom {first s : List α} {rest : List (List α)}
    (h : splitFrom sep 0 s = first :: rest) : first <+: s := by
  induction s generalizing first rest with
  | nil =>
    obtain rfl := (List.cons.inj h).1
    exact List.nil_prefix
  | cons b t ih =>
    rw [splitFrom] at h
    split at h
    · obtain rfl := (List.cons.inj h).1
      exact List.nil_prefix
    · cases hrest : splitFrom sep 0 t with
      | nil => exact absurd hrest (splitFrom_ne_nil sep 0 t)
      | cons first' rest' =>
        rw [hrest, List.modifyHead_cons] at h
        obtain ⟨rfl, -⟩ := List.cons.inj h
        exact List.prefix_cons_inj b |>.mpr (ih hrest)

/-- No piece contains the separator. -/
theorem not_infix_of_mem_splitFrom (hsep : sep ≠ []) {k : Nat} {s piece : List α}
    (h : piece ∈ splitFrom sep k s) : ¬ sep <:+: piece := by
  have hnil : ¬ sep <:+: [] := fun hinfix => hsep (List.infix_nil.mp hinfix)
  induction s generalizing k piece with
  | nil =>
    cases k <;>
    · rw [splitFrom, List.mem_singleton] at h
      exact h ▸ hnil
  | cons b t ih =>
    cases k with
    | succ k => exact ih h
    | zero =>
      rw [splitFrom] at h
      split at h
      · rcases List.mem_cons.mp h with rfl | h
        · exact hnil
        · exact ih h
      · rename_i hno
        cases hrest : splitFrom sep 0 t with
        | nil => exact absurd hrest (splitFrom_ne_nil sep 0 t)
        | cons first rest =>
          rw [hrest, List.modifyHead_cons] at h
          rcases List.mem_cons.mp h with rfl | h
          · -- the letter in front makes no match, for then there was one in the text
            intro hinfix
            rcases List.infix_cons_iff.mp hinfix with hstart | hlater
            · have hwhole : sep <+: b :: t :=
                hstart.trans ((List.prefix_cons_inj b).mpr (prefix_of_splitFrom hrest))
              exact hno (List.isPrefixOf_iff_prefix.mpr hwhole)
            · exact ih (hrest ▸ List.mem_cons_self) hlater
          · exact ih (hrest ▸ List.mem_cons_of_mem _ h)

end Any

section Unbordered

variable {a : α} {r : List α}

theorem splitAll_of_not_infix {s : List α} (h : ¬ (a :: r) <:+: s) :
    splitAll (a :: r) s = [s] := by
  induction s with
  | nil => rfl
  | cons b t ih =>
    have hno : ¬ (a :: r).isPrefixOf (b :: t) = true := fun hpre =>
      h (List.isPrefixOf_iff_prefix.mp hpre).isInfix
    have ht : splitFrom (a :: r) 0 t = [t] := ih fun hinfix => h (List.infix_cons hinfix)
    rw [splitAll, splitFrom, if_neg hno, ht]
    rfl

omit [DecidableEq α] in
/-- No match starts in a text without the separator and ends in a separator behind it. -/
theorem not_prefix_of_not_infix (ha : a ∉ r) {s : List α} (h : ¬ (a :: r) <:+: s) (hs : s ≠ [])
    (t : List α) : ¬ (a :: r) <+: s ++ (a :: r ++ t) := by
  intro hpre
  rcases List.prefix_or_prefix_of_prefix hpre (List.prefix_append s _) with hfits | hover
  · exact h hfits.isInfix
  · obtain ⟨x, hx⟩ := hover
    have hrest : s ++ x <+: s ++ (a :: r ++ t) := by
      rw [hx]
      exact hpre
    rw [List.prefix_append_right_inj] at hrest
    cases x with
    | nil =>
      rw [List.append_nil] at hx
      exact h (hx ▸ List.infix_rfl)
    | cons c x =>
      obtain rfl : c = a := (List.cons_prefix_cons.mp hrest).1
      cases s with
      | nil => exact hs rfl
      | cons b s =>
        have hr : s ++ c :: x = r := (List.cons.inj hx).2
        exact ha (hr ▸ List.mem_append_right s List.mem_cons_self)

/-- A text without the separator, the separator, and what is split behind it. -/
theorem splitAll_append (ha : a ∉ r) {s : List α} (h : ¬ (a :: r) <:+: s) (t : List α) :
    splitAll (a :: r) (s ++ (a :: r ++ t)) = s :: splitAll (a :: r) t := by
  induction s with
  | nil =>
    have hpre : (a :: r).isPrefixOf (a :: (r ++ t)) = true :=
      List.isPrefixOf_iff_prefix.mpr (List.prefix_append (a :: r) t)
    rw [List.nil_append, List.cons_append, splitAll, splitFrom, if_pos hpre, List.length_cons,
      Nat.add_sub_cancel, splitFrom_skip]
    rfl
  | cons b s ih =>
    have hs : ¬ (a :: r) <:+: s := fun hinfix => h (List.infix_cons hinfix)
    have hno : ¬ (a :: r).isPrefixOf (b :: (s ++ (a :: r ++ t))) = true := fun hpre =>
      not_prefix_of_not_infix ha h (List.cons_ne_nil b s) t (List.isPrefixOf_iff_prefix.mp hpre)
    have hrest : splitFrom (a :: r) 0 (s ++ (a :: r ++ t)) = s :: splitAll (a :: r) t := ih hs
    rw [List.cons_append, splitAll, splitFrom, if_neg hno, hrest]
    rfl

/-- The texts come back exactly when none of them contains the separator. -/
theorem splitAll_intercalate_iff (ha : a ∉ r) {pieces : List (List α)} (hne : pieces ≠ []) :
    splitAll (a :: r) ((a :: r).intercalate pieces) = pieces ↔
      ∀ piece ∈ pieces, ¬ (a :: r) <:+: piece := by
  constructor
  · intro h piece hpiece
    rw [← h] at hpiece
    exact not_infix_of_mem_splitFrom (List.cons_ne_nil a r) hpiece
  · intro h
    induction pieces with
    | nil => exact absurd rfl hne
    | cons first rest ih =>
      have hfirst := h first List.mem_cons_self
      cases rest with
      | nil => rw [List.intercalate_singleton, splitAll_of_not_infix hfirst]
      | cons second rest =>
        have hrest := ih (List.cons_ne_nil _ _) fun p hp => h p (List.mem_cons_of_mem _ hp)
        rw [List.intercalate_cons_cons, List.append_assoc, splitAll_append ha hfirst, hrest]

end Unbordered

end Text
