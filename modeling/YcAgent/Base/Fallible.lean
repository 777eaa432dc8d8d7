import Mathlib.Data.List.Forall2

/-!
# Lists of steps that may fail

Steps for the elements of a list, one after another, have a result where each of them has one.
-/
namespace Fallible

variable {α β : Type*} {f : α → Option β} {l : List α}

theorem mapM_eq_some_iff {ys : List β} :
    l.mapM f = some ys ↔ List.Forall₂ (fun a b => f a = some b) l ys := by
  induction l generalizing ys with
  | nil =>
    rw [List.mapM_nil, List.forall₂_nil_left_iff]
    exact Option.some_inj.trans eq_comm
  | cons a l ih =>
    rw [List.mapM_cons]
    constructor
    · intro h
      obtain ⟨b, hb, h⟩ := Option.bind_eq_some_iff.mp h
      obtain ⟨bs, hbs, h⟩ := Option.bind_eq_some_iff.mp h
      rw [← Option.some.inj h]
      exact List.Forall₂.cons hb (ih.mp hbs)
    · intro h
      cases h with
      | cons hb hbs =>
        rw [hb, ih.mpr hbs]
        rfl

theorem exists_mem_left {R : α → β → Prop} {ys : List β} (h : List.Forall₂ R l ys) {b : β}
    (hb : b ∈ ys) : ∃ a ∈ l, R a b := by
  induction h with
  | nil => cases hb
  | cons hab _ ih =>
    rcases List.mem_cons.mp hb with rfl | hb
    · exact ⟨_, List.mem_cons_self, hab⟩
    · obtain ⟨a, ha, hR⟩ := ih hb
      exact ⟨a, List.mem_cons_of_mem _ ha, hR⟩

theorem exists_mem_right {R : α → β → Prop} {ys : List β} (h : List.Forall₂ R l ys) {a : α}
    (ha : a ∈ l) : ∃ b ∈ ys, R a b := by
  induction h with
  | nil => cases ha
  | cons hab _ ih =>
    rcases List.mem_cons.mp ha with rfl | ha
    · exact ⟨_, List.mem_cons_self, hab⟩
    · obtain ⟨b, hb, hR⟩ := ih ha
      exact ⟨b, List.mem_cons_of_mem _ hb, hR⟩

theorem mapM_of_forall (h : ∀ a ∈ l, (f a).isSome) : l.mapM f = some (l.filterMap f) := by
  induction l with
  | nil => rfl
  | cons a l ih =>
    obtain ⟨ha, hl⟩ := List.forall_mem_cons.mp h
    obtain ⟨b, hb⟩ := Option.isSome_iff_exists.mp ha
    rw [List.mapM_cons, ih hl, hb, List.filterMap_cons, hb]
    rfl

theorem mapM_of_exists {a : α} (ha : a ∈ l) (hf : f a = none) : l.mapM f = none := by
  induction l with
  | nil => cases ha
  | cons b l ih =>
    rw [List.mapM_cons]
    rcases List.mem_cons.mp ha with rfl | ha
    · rw [hf]
      rfl
    · rw [ih ha]
      cases f b <;> rfl

/-- Where each step has a result for enough fuel, and keeps it, all of them have one. -/
theorem exists_mapM {f : ℕ → α → Option β}
    (hstable : ∀ m n a b, m ≤ n → f m a = some b → f n a = some b)
    (h : ∀ a ∈ l, ∃ n b, f n a = some b) : ∃ n ys, l.mapM (f n) = some ys := by
  induction l with
  | nil => exact ⟨0, [], rfl⟩
  | cons a l ih =>
    obtain ⟨ha, hl⟩ := List.forall_mem_cons.mp h
    obtain ⟨m, b, hb⟩ := ha
    obtain ⟨n, ys, hys⟩ := ih hl
    refine ⟨max m n, b :: ys, mapM_eq_some_iff.mpr (List.Forall₂.cons ?_ ?_)⟩
    · exact hstable m _ a b (Nat.le_max_left m n) hb
    · exact (mapM_eq_some_iff.mp hys).imp fun a b hab => hstable n _ a b (Nat.le_max_right m n) hab

/-! ## Results that are kept -/

theorem length_filterMap_le {f g : α → Option β} (h : ∀ a ∈ l, f a = none ∨ g a = f a) :
    (l.filterMap f).length ≤ (l.filterMap g).length := by
  induction l with
  | nil => exact Nat.le_refl 0
  | cons a l ih =>
    obtain ⟨ha, hl⟩ := List.forall_mem_cons.mp h
    have hrest := ih hl
    rw [List.filterMap_cons, List.filterMap_cons]
    rcases ha with hnone | hsame
    · rw [hnone]
      cases g a with
      | none => exact hrest
      | some b => exact Nat.le_succ_of_le hrest
    · rw [hsame]
      cases f a with
      | none => exact hrest
      | some b => exact Nat.succ_le_succ hrest

/-- A step that keeps every result, and brings no other one to the list, has no other one. -/
theorem eq_of_filterMap_eq {f g : α → Option β} (h : ∀ a ∈ l, f a = none ∨ g a = f a)
    (heq : l.filterMap g = l.filterMap f) : ∀ a ∈ l, g a = f a := by
  induction l with
  | nil => exact fun a ha => absurd ha List.not_mem_nil
  | cons a l ih =>
    obtain ⟨ha, hl⟩ := List.forall_mem_cons.mp h
    rw [List.filterMap_cons, List.filterMap_cons] at heq
    have hhead : g a = f a := by
      rcases ha with hnone | hsame
      · rw [hnone] at heq ⊢
        cases hg : g a with
        | none => rfl
        | some b =>
          rw [hg] at heq
          have hmore : b :: l.filterMap g = l.filterMap f := heq
          have hle := length_filterMap_le hl
          rw [← hmore, List.length_cons] at hle
          omega
      · exact hsame
    refine List.forall_mem_cons.mpr ⟨hhead, ih hl ?_⟩
    rw [hhead] at heq
    cases hf : f a with
    | none => rwa [hf] at heq
    | some b =>
      rw [hf] at heq
      exact (List.cons.inj heq).2

section Last

variable {α β : Type*}

theorem getLast?_filterMap_eq_some_iff {g : α → Option β} {l : List α} {x : β} :
    (l.filterMap g).getLast? = some x ↔
      ∃ front a back, l = front ++ a :: back ∧ g a = some x ∧ ∀ b ∈ back, g b = none := by
  rw [List.getLast?_filterMap, List.findSome?_eq_some_iff]
  constructor
  · rintro ⟨back, a, front, hl, ha, hback⟩
    refine ⟨front.reverse, a, back.reverse, ?_, ha, fun b hb => hback b (List.mem_reverse.mp hb)⟩
    rw [← List.reverse_reverse l, hl]
    simp
  · rintro ⟨front, a, back, rfl, ha, hback⟩
    refine ⟨back.reverse, a, front.reverse, by simp, ha, fun b hb => ?_⟩
    exact hback b (List.mem_reverse.mp hb)

/-- Two entries are in one place, or the one is behind the other, or in front of it. -/
theorem append_cons_cases {front back before behind : List α} {a e : α}
    (h : front ++ a :: back = before ++ e :: behind) :
    a = e ∨ e ∈ back ∨
      ∃ between, front = before ++ e :: between ∧ behind = between ++ a :: back := by
  rcases List.append_eq_append_iff.mp h with ⟨gap, rfl, hgap⟩ | ⟨gap, rfl, hgap⟩
  · cases gap with
    | nil => exact Or.inl (List.cons.inj hgap).1
    | cons b gap =>
      obtain ⟨-, rfl⟩ := List.cons.inj hgap
      exact Or.inr (Or.inl (List.mem_append_right gap List.mem_cons_self))
  · cases gap with
    | nil => exact Or.inl (List.cons.inj hgap).1.symm
    | cons b gap =>
      obtain ⟨rfl, rfl⟩ := List.cons.inj hgap
      exact Or.inr (Or.inr ⟨gap, rfl, rfl⟩)

/-- Of two functions one gives what the other does wherever that gives anything. Their last
results are the same where every other result of the first is followed by one, or is the last
one of the second so far. -/
theorem getLast?_filterMap_eq_iff {g h : α → Option β} (hgh : ∀ a x, h a = some x → g a = some x)
    (l : List α) :
    (l.filterMap g).getLast? = (l.filterMap h).getLast? ↔
      ∀ front a back, l = front ++ a :: back → h a = none → g a ≠ none →
        (∃ b ∈ back, g b ≠ none) ∨
          ∃ before e between, front = before ++ e :: between ∧ (∀ b ∈ between, h b = none) ∧
            h e ≠ none ∧ g a = h e := by
  have hnone : ∀ a, g a = none → h a = none := by
    intro a ha
    cases hx : h a with
    | none => rfl
    | some x => exact absurd (ha.symm.trans (hgh a x hx)) (Option.some_ne_none x).symm
  constructor
  · intro heq front a back hl ha hga
    by_cases hlater : ∃ b ∈ back, g b ≠ none
    · exact Or.inl hlater
    · have hback : ∀ b ∈ back, g b = none := by
        intro b hb
        by_contra hne
        exact hlater ⟨b, hb, hne⟩
      obtain ⟨x, hx⟩ := Option.ne_none_iff_exists'.mp hga
      have hlast := getLast?_filterMap_eq_some_iff.mpr ⟨front, a, back, hl, hx, hback⟩
      rw [heq] at hlast
      obtain ⟨before, e, behind, hl', he, hbehind⟩ := getLast?_filterMap_eq_some_iff.mp hlast
      -- `e` is not `a`, and not behind it, where nothing has a result
      rcases append_cons_cases (hl.symm.trans hl') with rfl | hlate | ⟨between, rfl, rfl⟩
      · rw [ha] at he
        cases he
      · have hge : g e = some x := hgh e x he
        rw [hback e hlate] at hge
        cases hge
      · refine Or.inr ⟨before, e, between, rfl, ?_, ?_, hx.trans he.symm⟩
        · exact fun b hb => hbehind b (List.mem_append_left _ hb)
        · rw [he]
          exact Option.some_ne_none x
  · intro hall
    cases hlast : (l.filterMap g).getLast? with
    | none =>
      have hempty : l.filterMap h = [] := by
        refine List.filterMap_eq_nil_iff.mpr fun a ha => hnone a ?_
        exact List.filterMap_eq_nil_iff.mp (List.getLast?_eq_none_iff.mp hlast) a ha
      rw [hempty]
      rfl
    | some x =>
      obtain ⟨front, a, back, hl, hx, hback⟩ := getLast?_filterMap_eq_some_iff.mp hlast
      refine (getLast?_filterMap_eq_some_iff.mpr ?_).symm
      cases ha : h a with
      | some y =>
        obtain rfl : x = y := Option.some.inj (hx.symm.trans (hgh a y ha))
        exact ⟨front, a, back, hl, ha, fun b hb => hnone b (hback b hb)⟩
      | none =>
        have hga : g a ≠ none := by
          rw [hx]
          exact Option.some_ne_none x
        rcases hall front a back hl ha hga with ⟨b, hb, hgb⟩ | hearlier
        · exact absurd (hback b hb) hgb
        · obtain ⟨before, e, between, rfl, hbetween, -, he⟩ := hearlier
          refine ⟨before, e, between ++ a :: back, ?_, he.symm.trans hx, fun b hb => ?_⟩
          · rw [hl, List.append_assoc, List.cons_append]
          · rcases List.mem_append.mp hb with hb | hb
            · exact hbetween b hb
            · rcases List.mem_cons.mp hb with rfl | hb
              · exact ha
              · exact hnone b (hback b hb)

end Last

end Fallible
