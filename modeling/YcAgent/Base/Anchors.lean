import Mathlib.Data.List.Forall2
import YcAgent.Base.Glob

/-!
# Where a pattern lies on a text

A pattern takes its text in parts. Bytes that stand in the pattern as often as in the text
are taken by themselves, so they hold the parts between them in their places.
-/
namespace Go

/-- The pattern takes the first text off what it makes with the second. -/
def Eats : GoString → GoString → GoString → Prop
  | [], taken, _ => taken = []
  | c :: pattern, taken, rest =>
    if c = star then ∃ x y, taken = x ++ y ∧ slash ∉ x ∧ Eats pattern y rest
    else if c = questionMark then
      ∃ x y, taken = x ++ y ∧ x ≠ [] ∧ x.length = runeLen (taken ++ rest) ∧ Eats pattern y rest
    else ∃ y, taken = c :: y ∧ Eats pattern y rest

theorem eats_star {pattern taken rest : GoString} :
    Eats (star :: pattern) taken rest ↔
      ∃ x y, taken = x ++ y ∧ slash ∉ x ∧ Eats pattern y rest := by
  rw [Eats, if_pos rfl]

theorem eats_question {pattern taken rest : GoString} :
    Eats (questionMark :: pattern) taken rest ↔
      ∃ x y, taken = x ++ y ∧ x ≠ [] ∧ x.length = runeLen (taken ++ rest) ∧
        Eats pattern y rest := by
  rw [Eats, if_neg (by decide), if_pos rfl]

theorem eats_literal {c : Byte} (hc : ¬ IsMeta c) {pattern taken rest : GoString} :
    Eats (c :: pattern) taken rest ↔ ∃ y, taken = c :: y ∧ Eats pattern y rest := by
  rw [Eats, if_neg (fun h => hc (Or.inl h)), if_neg (fun h => hc (Or.inr h))]

theorem byte_cases (c : Byte) : c = star ∨ c = questionMark ∨ ¬ IsMeta c := by
  by_cases hstar : c = star
  · exact Or.inl hstar
  · by_cases hquestion : c = questionMark
    · exact Or.inr (Or.inl hquestion)
    · exact Or.inr (Or.inr fun hmeta => hmeta.elim hstar hquestion)

/-- A text that matches is what the front of the pattern takes and what the rest matches. -/
theorem eats_of_matches {front pattern s : GoString} (h : Matches (front ++ pattern) s) :
    ∃ taken rest, s = taken ++ rest ∧ Eats front taken rest ∧ Matches pattern rest := by
  induction front generalizing s with
  | nil => exact ⟨[], s, rfl, rfl, h⟩
  | cons c front ih =>
    rcases byte_cases c with rfl | rfl | hc
    · obtain ⟨x, t, rfl, hx, ht⟩ := matches_star.mp h
      obtain ⟨taken, rest, rfl, heats, hrest⟩ := ih ht
      exact ⟨x ++ taken, rest, by simp, eats_star.mpr ⟨x, taken, rfl, hx, heats⟩, hrest⟩
    · obtain ⟨hne, _, ht⟩ := matches_question.mp h
      obtain ⟨taken, rest, hdrop, heats, hrest⟩ := ih ht
      obtain ⟨hpos, hle⟩ := runeLen_bounds hne
      have hs : s = s.take (runeLen s) ++ taken ++ rest := by
        rw [List.append_assoc, ← hdrop, List.take_append_drop]
      have htake : (s.take (runeLen s)).length = runeLen s := by
        rw [List.length_take]
        omega
      refine ⟨s.take (runeLen s) ++ taken, rest, hs, ?_, hrest⟩
      refine eats_question.mpr ⟨s.take (runeLen s), taken, rfl, ?_, ?_, heats⟩
      · intro hnil
        rw [hnil] at htake
        exact absurd htake.symm (Nat.ne_of_gt hpos)
      · rw [← hs]
        exact htake
    · obtain ⟨t, rfl, ht⟩ := (matches_literal hc).mp h
      obtain ⟨taken, rest, rfl, heats, hrest⟩ := ih ht
      exact ⟨c :: taken, rest, rfl, (eats_literal hc).mpr ⟨taken, rfl, heats⟩, hrest⟩

theorem eats_append {front pattern taken rest : GoString} (h : Eats (front ++ pattern) taken rest) :
    ∃ x y, taken = x ++ y ∧ Eats front x (y ++ rest) ∧ Eats pattern y rest := by
  induction front generalizing taken with
  | nil => exact ⟨[], taken, rfl, rfl, h⟩
  | cons c front ih =>
    rcases byte_cases c with rfl | rfl | hc
    · obtain ⟨x, t, rfl, hx, ht⟩ := eats_star.mp h
      obtain ⟨x', y, rfl, hfront, hy⟩ := ih ht
      exact ⟨x ++ x', y, by simp, eats_star.mpr ⟨x, x', rfl, hx, hfront⟩, hy⟩
    · obtain ⟨x, t, rfl, hne, hlen, ht⟩ := eats_question.mp h
      obtain ⟨x', y, rfl, hfront, hy⟩ := ih ht
      refine ⟨x ++ x', y, by simp, eats_question.mpr ⟨x, x', rfl, hne, ?_, hfront⟩, hy⟩
      rw [hlen]
      simp
    · obtain ⟨t, rfl, ht⟩ := (eats_literal hc).mp h
      obtain ⟨x', y, rfl, hfront, hy⟩ := ih ht
      exact ⟨c :: x', y, rfl, (eats_literal hc).mpr ⟨x', rfl, hfront⟩, hy⟩

theorem eats_literals {front taken rest : GoString} (hfront : ∀ c ∈ front, ¬ IsMeta c)
    (h : Eats front taken rest) : taken = front := by
  induction front generalizing taken with
  | nil => exact h
  | cons c front ih =>
    obtain ⟨hc, hrest⟩ := List.forall_mem_cons.mp hfront
    obtain ⟨y, rfl, hy⟩ := (eats_literal hc).mp h
    rw [ih hrest hy]

/-- Without a star, a pattern takes as many ASCII bytes as it has. -/
theorem length_of_eats {pattern taken rest : GoString} (hstar : star ∉ pattern)
    (hascii : ∀ b ∈ taken, b < 0x80) (h : Eats pattern taken rest) :
    taken.length = pattern.length := by
  induction pattern generalizing taken with
  | nil => rw [show taken = [] from h]
  | cons c pattern ih =>
    obtain ⟨hne, hrest⟩ := not_or.mp (mt List.mem_cons.mpr hstar)
    rcases byte_cases c with rfl | rfl | hc
    · exact absurd rfl hne
    · obtain ⟨x, y, rfl, hx, hlen, hy⟩ := eats_question.mp h
      have hy' := ih hrest (fun b hb => hascii b (List.mem_append_right x hb)) hy
      cases x with
      | nil => exact absurd rfl hx
      | cons b x =>
        rw [List.append_assoc, List.cons_append, runeLen_of_ascii (hascii b (by simp))] at hlen
        rw [List.length_append, hlen, hy', List.length_cons]
        omega
    · obtain ⟨y, rfl, hy⟩ := (eats_literal hc).mp h
      rw [List.length_cons, List.length_cons, ih hrest (fun b hb =>
        hascii b (List.mem_cons_of_mem c hb)) hy]

/-- Of bytes that are no wildcards the text has at least as many as the pattern. -/
theorem countP_le_of_eats {p : Byte → Bool} (hp : ∀ c, p c = true → ¬ IsMeta c)
    {pattern taken rest : GoString} (h : Eats pattern taken rest) :
    pattern.countP p ≤ taken.countP p := by
  induction pattern generalizing taken with
  | nil => exact Nat.zero_le _
  | cons c pattern ih =>
    rcases byte_cases c with rfl | rfl | hc
    · obtain ⟨x, y, rfl, _, hy⟩ := eats_star.mp h
      have hno : ¬ p star = true := fun hstar => hp _ hstar (Or.inl rfl)
      rw [List.countP_cons_of_neg hno, List.countP_append]
      exact Nat.le_add_left_of_le (ih hy)
    · obtain ⟨x, y, rfl, _, _, hy⟩ := eats_question.mp h
      have hno : ¬ p questionMark = true := fun hquestion => hp _ hquestion (Or.inr rfl)
      rw [List.countP_cons_of_neg hno, List.countP_append]
      exact Nat.le_add_left_of_le (ih hy)
    · obtain ⟨y, rfl, hy⟩ := (eats_literal hc).mp h
      rw [List.countP_cons, List.countP_cons]
      exact Nat.add_le_add_right (ih hy) _

/-! ## Cutting at anchors -/

section Anchors

variable {α : Type} (p : α → Bool)

/-- The list is empty, or its last element is an anchor. -/
def EndsAnchored (l : List α) : Prop := ∀ l' a, l = l' ++ [a] → p a = true

def StartsAnchored (l : List α) : Prop := ∀ a l', l = a :: l' → p a = true

variable {p}

theorem EndsAnchored.eq_nil {l d : List α} (h : EndsAnchored p (l ++ d)) (hd : d.countP p = 0) :
    d = [] := by
  induction d using List.reverseRecOn with
  | nil => rfl
  | append_singleton d a _ =>
    have ha := h (l ++ d) a (by simp)
    rw [List.countP_append, List.countP_singleton, if_pos ha] at hd
    omega

/-- Two cuts behind the same number of anchors are the same. -/
theorem EndsAnchored.cut {e f a b : List α} (he : EndsAnchored p e) (ha : EndsAnchored p a)
    (hcount : e.countP p = a.countP p) (h : e ++ f = a ++ b) : e = a ∧ f = b := by
  rcases List.append_eq_append_iff.mp h with ⟨d, rfl, rfl⟩ | ⟨d, rfl, rfl⟩
  · rw [List.countP_append] at hcount
    rw [ha.eq_nil (by omega)]
    simp
  · rw [List.countP_append] at hcount
    rw [he.eq_nil (by omega)]
    simp

theorem StartsAnchored.eq_nil {l d : List α} (h : StartsAnchored p (d ++ l))
    (hd : d.countP p = 0) : d = [] := by
  cases d with
  | nil => rfl
  | cons a d =>
    have ha := h a (d ++ l) rfl
    rw [List.countP_cons_of_pos ha] at hd
    omega

theorem StartsAnchored.cut {e f a b : List α} (hf : StartsAnchored p f) (hb : StartsAnchored p b)
    (hcount : f.countP p = b.countP p) (h : e ++ f = a ++ b) : e = a ∧ f = b := by
  rcases List.append_eq_append_iff.mp h with ⟨d, rfl, rfl⟩ | ⟨d, rfl, rfl⟩
  · rw [List.countP_append] at hcount
    rw [hf.eq_nil (by omega)]
    simp
  · rw [List.countP_append] at hcount
    rw [hb.eq_nil (by omega)]
    simp

theorem exists_last_anchor (l : List α) :
    ∃ front run, l = front ++ run ∧ (∀ a ∈ run, p a = false) ∧ EndsAnchored p front := by
  induction l using List.reverseRecOn with
  | nil => exact ⟨[], [], rfl, by simp, by simp [EndsAnchored]⟩
  | append_singleton l a ih =>
    cases hpa : p a with
    | true =>
      refine ⟨l ++ [a], [], by simp, by simp, ?_⟩
      intro l' b hb
      have hlast := List.append_inj_right' hb rfl
      rw [← List.head_eq_of_cons_eq hlast]
      exact hpa
    | false =>
      obtain ⟨front, run, rfl, hrun, hfront⟩ := ih
      refine ⟨front, run ++ [a], by simp, ?_, hfront⟩
      intro b hb
      rcases List.mem_append.mp hb with hb | hb
      · exact hrun b hb
      · rw [List.mem_singleton.mp hb]
        exact hpa

theorem exists_first_anchor (l : List α) :
    ∃ run back, l = run ++ back ∧ (∀ a ∈ run, p a = false) ∧ StartsAnchored p back := by
  induction l with
  | nil => exact ⟨[], [], rfl, by simp, by simp [StartsAnchored]⟩
  | cons a l ih =>
    cases hpa : p a with
    | true =>
      refine ⟨[], a :: l, rfl, by simp, ?_⟩
      intro b l' hb
      rw [← List.head_eq_of_cons_eq hb]
      exact hpa
    | false =>
      obtain ⟨run, back, rfl, hrun, hback⟩ := ih
      exact ⟨a :: run, back, rfl, List.forall_mem_cons.mpr ⟨hpa, hrun⟩, hback⟩

/-- Byte for byte the two texts have the same anchors. -/
def Aligned (p : α → Bool) : List α → List α → Prop :=
  List.Forall₂ fun c b => p c = true ∨ p b = true → b = c

theorem Aligned.append {A X a x : List α} (hA : Aligned p A a) (hX : Aligned p X x) :
    Aligned p (A ++ X) (a ++ x) := List.rel_append hA hX

theorem Aligned.refl (l : List α) : Aligned p l l := List.forall₂_same.mpr fun _ _ _ => rfl

theorem Aligned.split {A X a : List α} (h : Aligned p (A ++ X) a) :
    ∃ a' x, a = a' ++ x ∧ Aligned p A a' ∧ Aligned p X x := by
  induction A generalizing a with
  | nil => exact ⟨[], a, rfl, .nil, h⟩
  | cons c A ih =>
    obtain ⟨b, t, hcb, ht, rfl⟩ := List.forall₂_cons_left_iff.mp h
    obtain ⟨a', x, rfl, hA, hX⟩ := ih ht
    exact ⟨b :: a', x, rfl, .cons hcb hA, hX⟩

theorem Aligned.countP_eq {A a : List α} (h : Aligned p A a) : A.countP p = a.countP p := by
  induction h with
  | nil => rfl
  | @cons c b A a hcb _ ih =>
    have hsame : p c = p b := by
      by_cases hany : p c = true ∨ p b = true
      · rw [hcb hany]
      · obtain ⟨hc, hb⟩ := not_or.mp hany
        rw [Bool.eq_false_iff.mpr hc, Bool.eq_false_iff.mpr hb]
    rw [List.countP_cons, List.countP_cons, ih, hsame]

theorem Aligned.endsAnchored {A a : List α} (h : Aligned p A a) (hA : EndsAnchored p A) :
    EndsAnchored p a := by
  intro l b hb
  subst hb
  have hlen := h.length_eq
  induction A using List.reverseRecOn with
  | nil => simp at hlen
  | append_singleton A c _ =>
    obtain ⟨a', x, hax, _, hX⟩ := h.split
    obtain ⟨b', t, hcb, ht, rfl⟩ := List.forall₂_cons_left_iff.mp hX
    obtain rfl := List.forall₂_nil_left_iff.mp ht
    have hc := hA A c rfl
    have hlast := List.head_eq_of_cons_eq (List.append_inj_right' hax rfl)
    rw [hlast, hcb (Or.inl hc)]
    exact hc

theorem Aligned.startsAnchored {A a : List α} (h : Aligned p A a) (hA : StartsAnchored p A) :
    StartsAnchored p a := by
  intro b l hb
  subst hb
  obtain ⟨c, A', hcb, _, rfl⟩ := List.forall₂_cons_right_iff.mp h
  have hc := hA c A' rfl
  rw [hcb (Or.inl hc)]
  exact hc

end Anchors

section Eats

variable {p : Byte → Bool} (hp : ∀ c, p c = true → ¬ IsMeta c)

include hp

theorem endsAnchored_of_eats {pattern taken rest : GoString} (h : EndsAnchored p pattern)
    (heats : Eats pattern taken rest) : EndsAnchored p taken := by
  induction pattern using List.reverseRecOn with
  | nil =>
    obtain rfl : taken = [] := heats
    exact h
  | append_singleton pattern c _ =>
    have hc := h pattern c rfl
    obtain ⟨x, y, rfl, _, hy⟩ := eats_append heats
    obtain ⟨z, rfl, hz⟩ := (eats_literal (hp c hc)).mp hy
    obtain rfl : z = [] := hz
    intro l b hb
    rw [← List.head_eq_of_cons_eq (List.append_inj_right' hb rfl)]
    exact hc

theorem startsAnchored_of_eats {pattern taken rest : GoString} (h : StartsAnchored p pattern)
    (heats : Eats pattern taken rest) : StartsAnchored p taken := by
  cases pattern with
  | nil =>
    obtain rfl : taken = [] := heats
    exact fun a l hl => absurd hl (List.cons_ne_nil a l).symm
  | cons c pattern =>
    have hc := h c pattern rfl
    obtain ⟨y, rfl, _⟩ := (eats_literal (hp c hc)).mp heats
    intro b l hb
    rw [← List.head_eq_of_cons_eq hb]
    exact hc

/-- What stands between the anchors of the pattern takes what stands between them in the text. -/
theorem middle_of_eats {A M B a m b rest : GoString} (hA : EndsAnchored p A)
    (hB : StartsAnchored p B) (hAa : Aligned p A a) (hBb : Aligned p B b) (hm : m.countP p = 0)
    (h : Eats (A ++ (M ++ B)) (a ++ (m ++ b)) rest) : ∃ rest', Eats M m rest' := by
  obtain ⟨e₁, t, hsplit, hfirst, ht⟩ := eats_append h
  obtain ⟨e₂, e₃, rfl, hmiddle, hlast⟩ := eats_append ht
  have h₁ := countP_le_of_eats hp hfirst
  have h₃ := countP_le_of_eats hp hlast
  have htotal := congrArg (List.countP p) hsplit
  simp only [List.countP_append, hm] at htotal
  rw [hAa.countP_eq] at h₁
  rw [hBb.countP_eq] at h₃
  have ha := hAa.endsAnchored hA
  have he₁ := endsAnchored_of_eats hp hA hfirst
  obtain ⟨rfl, hrest⟩ := ha.cut he₁ (by omega) hsplit
  have hb := hBb.startsAnchored hB
  have he₃ := startsAnchored_of_eats hp hB hlast
  obtain ⟨rfl, _⟩ := hb.cut he₃ (by omega) hrest
  exact ⟨_, hmiddle⟩

end Eats

end Go
