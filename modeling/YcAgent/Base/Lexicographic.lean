import Mathlib.Data.List.Basic

/-!
# Texts written item by item

Two texts with the same layout are compared at the first item that differs, as long as
the items there have the same length.
-/
namespace Lexicographic

variable {α ι : Type*}

/-! ## What stands in front -/

/-- Some `a` stands in front of every `b`. -/
def Leads (a b : ι) : List ι → Prop
  | [] => True
  | c :: l => c ≠ b ∧ (c = a ∨ Leads a b l)

instance Leads.decidable [DecidableEq ι] (a b : ι) : (l : List ι) → Decidable (Leads a b l)
  | [] => isTrue trivial
  | c :: l =>
    have := Leads.decidable a b l
    inferInstanceAs (Decidable (c ≠ b ∧ (c = a ∨ Leads a b l)))

theorem leads_of_not_mem {a b : ι} {l : List ι} (h : b ∉ l) : Leads a b l := by
  induction l with
  | nil => trivial
  | cons c l ih =>
    obtain ⟨hc, hrest⟩ := not_or.mp (mt List.mem_cons.mpr h)
    exact ⟨fun hcb => hc hcb.symm, Or.inr (ih hrest)⟩

/-- Where no `a` has come yet, no `b` has. -/
theorem Leads.not_mem {a b : ι} {front back : List ι} (h : Leads a b (front ++ back))
    (ha : a ∉ front) : b ∉ front := by
  induction front with
  | nil => exact List.not_mem_nil
  | cons c front ih =>
    obtain ⟨hc, hfront⟩ := not_or.mp (mt List.mem_cons.mpr ha)
    obtain ⟨hne, hled⟩ := h
    have hrest := ih (hled.resolve_left fun hca => hc hca.symm) hfront
    exact List.not_mem_cons_of_ne_of_not_mem hne.symm hrest

theorem Leads.mem {a b : ι} {l : List ι} (h : Leads a b l) (hb : b ∈ l) : a ∈ l := by
  by_contra ha
  rw [← List.append_nil l] at h
  exact h.not_mem ha hb

/-- Otherwise there is a first `b` with no `a` in front. -/
theorem exists_of_not_leads {a b : ι} {l : List ι} (h : ¬ Leads a b l) :
    ∃ front back, l = front ++ b :: back ∧ a ∉ front ∧ b ∉ front := by
  induction l with
  | nil => exact absurd trivial h
  | cons c l ih =>
    by_cases hcb : c = b
    · exact ⟨[], l, by rw [hcb]; rfl, List.not_mem_nil, List.not_mem_nil⟩
    · have hca : ¬ c = a := fun hca => h ⟨hcb, Or.inl hca⟩
      obtain ⟨front, back, rfl, ha, hb⟩ := ih fun hled => h ⟨hcb, Or.inr hled⟩
      refine ⟨c :: front, back, rfl, ?_, ?_⟩
      · exact List.not_mem_cons_of_ne_of_not_mem (fun hac => hca hac.symm) ha
      · exact List.not_mem_cons_of_ne_of_not_mem (fun hbc => hcb hbc.symm) hb

/-! ## Items of fixed length -/

/-- Items of the same length are read back from the text. -/
theorem eq_of_flatMap_eq {f g : ι → List α} {l : List ι}
    (hlen : ∀ i ∈ l, (f i).length = (g i).length) (h : l.flatMap f = l.flatMap g) :
    ∀ i ∈ l, f i = g i := by
  induction l with
  | nil => exact fun i hi => absurd hi List.not_mem_nil
  | cons j l ih =>
    obtain ⟨hj, hrest⟩ := List.forall_mem_cons.mp hlen
    rw [List.flatMap_cons, List.flatMap_cons] at h
    obtain ⟨hhead, htail⟩ := List.append_inj h hj
    exact List.forall_mem_cons.mpr ⟨hhead, ih hrest htail⟩

/-! ## Comparison -/

variable [LT α]

theorem append_lt_append {a b : List α} (hlen : a.length = b.length) (h : a < b) (x y : List α) :
    a ++ x < b ++ y := by
  induction a generalizing b with
  | nil =>
    obtain rfl : b = [] := List.length_eq_zero_iff.mp hlen.symm
    exact absurd h (List.not_lt_nil [])
  | cons c a ih =>
    cases b with
    | nil => exact absurd h (List.not_lt_nil _)
    | cons d b =>
      rw [List.cons_append, List.cons_append]
      rcases List.cons_lt_cons_iff.mp h with hlt | ⟨rfl, hrest⟩
      · exact List.cons_lt_cons_iff.mpr (Or.inl hlt)
      · exact List.cons_lt_cons_iff.mpr (Or.inr ⟨rfl, ih (Nat.succ.inj hlen) hrest⟩)

theorem append_lt_append_left (front : List α) {x y : List α} (h : x < y) :
    front ++ x < front ++ y := by
  induction front with
  | nil => exact h
  | cons c front ih => exact List.cons_lt_cons_iff.mpr (Or.inr ⟨rfl, ih⟩)

/-- The first item that is written differently decides. -/
theorem flatMap_lt {f g : ι → List α} {front : List ι} {i : ι}
    (hfront : ∀ j ∈ front, f j = g j) (hi : ∀ x y, f i ++ x < g i ++ y) (back : List ι) :
    (front ++ i :: back).flatMap f < (front ++ i :: back).flatMap g := by
  rw [List.flatMap_append, List.flatMap_append, List.flatMap_cons, List.flatMap_cons,
    List.flatMap_congr hfront]
  exact append_lt_append_left _ (hi _ _)

end Lexicographic
