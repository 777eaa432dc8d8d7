import Mathlib.Data.List.TakeWhile
import Mathlib.Data.List.Infix

/-!
# Regular expressions of literals and greedy runs

A pattern is a sequence of literals, of greedy runs `c*`, and of captured greedy runs
`(c+)`. A match starts as far left as one does; among those from one place the first run
is as long as it can be, then the second, and so on.
-/
namespace Regex

variable {α β : Type*} [DecidableEq α]

inductive Piece (α : Type*) where
  | lit (l : List α)
  | many (c : α → Bool)
  | group (c : α → Bool)

/-- The first result, from the largest number down. -/
def longest (f : Nat → Option β) : Nat → Option β
  | 0 => f 0
  | n + 1 => (f (n + 1)).or (longest f n)

/-- The captured runs of a match that starts here. -/
def matchHere : List (Piece α) → List α → Option (List (List α))
  | [], _ => some []
  | .lit l :: ps, s => if l.isPrefixOf s then matchHere ps (s.drop l.length) else none
  | .many c :: ps, s => longest (fun n => matchHere ps (s.drop n)) (s.takeWhile c).length
  | .group c :: ps, s =>
    match (s.takeWhile c).length with
    | 0 => none
    | n + 1 => longest (fun k => (matchHere ps (s.drop (k + 1))).map (s.take (k + 1) :: ·)) n

/-- The captured runs of the leftmost match. -/
def find (ps : List (Piece α)) : List α → Option (List (List α))
  | [] => matchHere ps []
  | b :: s => (matchHere ps (b :: s)).or (find ps s)

/-- Either nothing is found, or what is found at the largest number that finds anything. -/
theorem longest_cases (f : Nat → Option β) (n : Nat) :
    (longest f n = none ∧ ∀ k ≤ n, f k = none) ∨
      ∃ k x, k ≤ n ∧ longest f n = some x ∧ f k = some x ∧
        ∀ j, k < j → j ≤ n → f j = none := by
  induction n with
  | zero =>
    cases h : f 0 with
    | none => exact Or.inl ⟨h, fun k hk => Nat.le_zero.mp hk ▸ h⟩
    | some x => exact Or.inr ⟨0, x, Nat.le_refl 0, h, h, fun j hj hle => by omega⟩
  | succ n ih =>
    rw [longest]
    cases h : f (n + 1) with
    | some x => exact Or.inr ⟨n + 1, x, Nat.le_refl _, rfl, h, fun j hj hle => by omega⟩
    | none =>
      rw [Option.none_or]
      have hstep : ∀ j, (j ≤ n → f j = none) → j ≤ n + 1 → f j = none := by
        intro j hj hle
        obtain hlt | rfl := Nat.lt_or_eq_of_le hle
        · exact hj (Nat.le_of_lt_succ hlt)
        · exact h
      obtain hnone | hsome := ih
      · exact Or.inl ⟨hnone.1, fun k => hstep k (hnone.2 k)⟩
      · obtain ⟨k, x, hk, hlongest, hfk, hlast⟩ := hsome
        exact Or.inr ⟨k, x, Nat.le_succ_of_le hk, hlongest, hfk,
          fun j hj => hstep j (hlast j hj)⟩

theorem longest_of_some {f : Nat → Option β} {n : Nat} {x : β} (h : f n = some x) :
    longest f n = some x := by
  cases n with
  | zero => exact h
  | succ n => rw [longest, h, Option.some_or]

/-- A last group takes the whole run. -/
theorem matchHere_group (c : α → Bool) (s : List α) :
    matchHere [.group c] s =
      if s.takeWhile c = [] then none else some [s.takeWhile c] := by
  have htake : s.take (s.takeWhile c).length = s.takeWhile c :=
    (List.prefix_iff_eq_take.mp (List.takeWhile_prefix c)).symm
  rw [matchHere]
  split
  · rename_i hlength
    rw [if_pos (List.length_eq_zero_iff.mp hlength)]
  · rename_i n hlength
    have hne : s.takeWhile c ≠ [] := by
      intro hnil
      rw [hnil] at hlength
      cases hlength
    rw [if_neg hne]
    apply longest_of_some
    rw [show n + 1 = (s.takeWhile c).length from hlength.symm, htake]
    rfl

theorem find_eq_none {ps : List (Piece α)} {s : List α}
    (h : ∀ u, u <:+ s → matchHere ps u = none) : find ps s = none := by
  induction s with
  | nil => exact h [] List.suffix_rfl
  | cons b s ih =>
    rw [find, h _ List.suffix_rfl, Option.none_or]
    exact ih fun u hu => h u (hu.trans (List.suffix_cons b s))

theorem matchHere_lit_eq_none {l s : List α} (ps : List (Piece α)) (h : ¬l <+: s) :
    matchHere (.lit l :: ps) s = none := by
  rw [matchHere, if_neg (mt List.isPrefixOf_iff_prefix.mp h)]

theorem matchHere_lit_append (l s : List α) (ps : List (Piece α)) :
    matchHere (.lit l :: ps) (l ++ s) = matchHere ps s := by
  rw [matchHere, if_pos (List.isPrefixOf_iff_prefix.mpr (List.prefix_append l s)), List.drop_left]

theorem matchHere_lit_cut (l l' s : List α) (ps : List (Piece α)) :
    matchHere (.lit (l ++ l') :: ps) (l ++ s) = matchHere (.lit l' :: ps) s := by
  by_cases h : l' <+: s
  · obtain ⟨t, rfl⟩ := h
    rw [← List.append_assoc, matchHere_lit_append, matchHere_lit_append]
  · rw [matchHere_lit_eq_none ps h,
      matchHere_lit_eq_none ps fun hpre => h ((List.prefix_append_right_inj l).mp hpre)]

/-- A pattern that starts with a literal is only to be tried where the literal is. -/
theorem find_lit_of_only {l before t : List α} (ps : List (Piece α))
    (honly : ∀ u, u <:+ before ++ t → l <+: u → u = t) :
    find (.lit l :: ps) (before ++ t) = matchHere (.lit l :: ps) t := by
  have hmiss : ∀ u, u <:+ before ++ t → u ≠ t → matchHere (.lit l :: ps) u = none :=
    fun u hu hne => matchHere_lit_eq_none ps fun hl => hne (honly u hu hl)
  induction before with
  | nil =>
    cases t with
    | nil => rfl
    | cons b s =>
      have hrest : find (.lit l :: ps) s = none := by
        refine find_eq_none fun u hu => ?_
        refine hmiss u (hu.trans (List.suffix_cons b s)) fun heq => ?_
        have hlength := hu.length_le
        rw [heq, List.length_cons] at hlength
        omega
      rw [List.nil_append, find, hrest, Option.or_none]
  | cons b before ih =>
    have hcons : before ++ t <:+ b :: before ++ t := List.suffix_cons b _
    have hhere : matchHere (.lit l :: ps) (b :: (before ++ t)) = none := by
      refine hmiss _ List.suffix_rfl fun heq => ?_
      have hlength := congrArg List.length heq
      rw [List.length_cons, List.length_append] at hlength
      omega
    rw [List.cons_append, find, hhere, Option.none_or]
    exact ih (fun u hu => honly u (hu.trans hcons)) fun u hu => hmiss u (hu.trans hcons)

/-! ## Words

A word is a run of `c` that ends where the text does, or in front of what is not in `c`. -/

section Word

variable {c : α → Bool} {l y after : List α}

omit [DecidableEq α] in
theorem takeWhile_word (hy : ∀ b ∈ y, c b = true) (hafter : ∀ b ∈ after.head?, c b = false) :
    (y ++ after).takeWhile c = y := by
  have hrest : after.takeWhile c = [] := by
    cases after with
    | nil => rfl
    | cons b after => rw [List.takeWhile_cons, hafter b rfl, if_neg Bool.false_ne_true]
  rw [List.takeWhile_append_of_pos hy, hrest, List.append_nil]

theorem matchHere_group_word (hy : ∀ b ∈ y, c b = true)
    (hafter : ∀ b ∈ after.head?, c b = false) (hne : y ≠ []) :
    matchHere [.group c] (y ++ after) = some [y] := by
  rw [matchHere_group, takeWhile_word hy hafter, if_neg hne]

omit [DecidableEq α] in
theorem prefix_of_prefix_word (hl : ∀ b ∈ l, c b = true)
    (hafter : ∀ b ∈ after.head?, c b = false) (h : l <+: y ++ after) : l <+: y := by
  induction l generalizing y with
  | nil => exact List.nil_prefix
  | cons b l ih =>
    cases y with
    | nil =>
      obtain ⟨t, ht⟩ := h
      have hb := hafter b (by rw [← List.nil_append after, ← ht]; rfl)
      rw [hl b List.mem_cons_self] at hb
      cases hb
    | cons b' y =>
      obtain ⟨rfl, hrest⟩ := List.cons_prefix_cons.mp h
      have hmem : ∀ b ∈ l, c b = true := fun b hb => hl b (List.mem_cons_of_mem _ hb)
      exact List.cons_prefix_cons.mpr ⟨rfl, ih hmem hrest⟩

theorem matchHere_lit_group_word (hy : ∀ b ∈ y, c b = true) (hl : ∀ b ∈ l, c b = true)
    (hafter : ∀ b ∈ after.head?, c b = false) :
    (matchHere [.lit l, .group c] (y ++ after) = none ∧ ∀ s, y = l ++ s → s = []) ∨
      ∃ s, matchHere [.lit l, .group c] (y ++ after) = some [s] ∧ y = l ++ s ∧ s ≠ [] := by
  by_cases hpre : l <+: y
  · obtain ⟨s, rfl⟩ := hpre
    have hs : ∀ b ∈ s, c b = true := fun b hb => hy b (List.mem_append_right l hb)
    rw [List.append_assoc, matchHere_lit_append]
    by_cases hne : s = []
    · left
      refine ⟨?_, fun s' hs' => (List.append_cancel_left hs').symm.trans hne⟩
      rw [matchHere_group, takeWhile_word hs hafter, if_pos hne]
    · exact Or.inr ⟨s, matchHere_group_word hs hafter hne, rfl, hne⟩
  · left
    refine ⟨matchHere_lit_eq_none _ fun h => ?_, fun s hs => ?_⟩
    · exact hpre (prefix_of_prefix_word hl hafter h)
    · exact absurd (hs ▸ List.prefix_append l s) hpre

/-- A run and a literal in a word match up to the last place of the literal that has something
behind it. -/
theorem matchHere_many_word (hy : ∀ b ∈ y, c b = true) (hl : ∀ b ∈ l, c b = true)
    (hafter : ∀ b ∈ after.head?, c b = false) :
    (matchHere [.many c, .lit l, .group c] (y ++ after) = none ∧
        ∀ u s, y = u ++ (l ++ s) → s = []) ∨
      ∃ u s, matchHere [.many c, .lit l, .group c] (y ++ after) = some [s] ∧
        y = u ++ (l ++ s) ∧ s ≠ [] ∧
        ∀ u' s', y = u' ++ (l ++ s') → s' ≠ [] → u'.length ≤ u.length := by
  have hdrop : ∀ k, k ≤ y.length → (y ++ after).drop k = y.drop k ++ after :=
    fun k hk => List.drop_append_of_le_length hk
  have hat := fun k : Nat =>
    matchHere_lit_group_word (fun b hb => hy b (List.mem_of_mem_drop hb)) hl hafter
      (y := y.drop k)
  have hsplit : ∀ u s, y = u ++ (l ++ s) → u.length ≤ y.length ∧ y.drop u.length = l ++ s := by
    intro u s h
    rw [h, List.drop_left, List.length_append]
    exact ⟨Nat.le_add_right _ _, rfl⟩
  have hnone : ∀ u s, y = u ++ (l ++ s) →
      matchHere [.lit l, .group c] ((y ++ after).drop u.length) = none → s = [] := by
    intro u s h hfail
    obtain ⟨hle, hs⟩ := hsplit u s h
    rw [hdrop _ hle] at hfail
    obtain hnone | ⟨s', hsome, -⟩ := hat u.length
    · exact hnone.2 s hs
    · rw [hfail] at hsome
      cases hsome
  rw [matchHere, takeWhile_word hy hafter]
  obtain hfail | hfound := longest_cases
    (fun n => matchHere [.lit l, .group c] ((y ++ after).drop n)) y.length
  · exact Or.inl ⟨hfail.1, fun u s h => hnone u s h (hfail.2 _ (hsplit u s h).1)⟩
  · obtain ⟨k, x, hk, hlongest, hfk, hlast⟩ := hfound
    right
    rw [hdrop k hk] at hfk
    obtain hnone' | hsome := hat k
    · rw [hnone'.1] at hfk
      cases hfk
    · obtain ⟨s, hs, hy', hne⟩ := hsome
      refine ⟨y.take k, s, ?_, ?_, hne, fun u' s' h hne' => ?_⟩
      · rw [hlongest, ← hfk, hs]
      · rw [← hy', List.take_append_drop]
      · rw [List.length_take, Nat.min_eq_left hk]
        by_contra hlt
        exact hne' (hnone u' s' h (hlast _ (Nat.not_le.mp hlt) (hsplit u' s' h).1))

end Word

end Regex
