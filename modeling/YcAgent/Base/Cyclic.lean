import Mathlib.Data.List.Perm.Basic
import Mathlib.Order.Lattice

/-!
# The predecessor in a cycle

Indices that are used one after the other, with the smallest one behind the greatest, have a
predecessor each. In a sorted list it is the one in front, or the last one of all.
-/
namespace Cyclic

variable {α : Type*} [LinearOrder α]

/-- The greatest of the list that is less than `p`, or its greatest where none is less. -/
def IsPredecessor (l : List α) (p k : α) : Prop :=
  k ∈ l ∧ ((k < p ∧ ∀ i ∈ l, i < p → i ≤ k) ∨ ∀ i ∈ l, p < i ∧ i ≤ k)

theorem IsPredecessor.perm {l l' : List α} (hl : l.Perm l') {p k : α} (h : IsPredecessor l p k) :
    IsPredecessor l' p k := by
  obtain ⟨hk, hgreatest⟩ := h
  refine ⟨hl.mem_iff.mp hk, ?_⟩
  rcases hgreatest with ⟨hlt, hmax⟩ | hmax
  · exact Or.inl ⟨hlt, fun i hi => hmax i (hl.mem_iff.mpr hi)⟩
  · exact Or.inr fun i hi => hmax i (hl.mem_iff.mpr hi)

section Sorted

variable {before after : List α} {p k : α}

/-- The last element in front of `p`. -/
theorem isPredecessor_of_before (h : ((before ++ [k]) ++ p :: after).Pairwise (· < ·)) :
    IsPredecessor ((before ++ [k]) ++ after) p k := by
  obtain ⟨hbefore, hafter, hcross⟩ := List.pairwise_append.mp h
  have hk : k ∈ before ++ [k] := List.mem_append_right _ (List.mem_singleton_self k)
  refine ⟨List.mem_append_left _ hk, Or.inl ⟨hcross k hk p List.mem_cons_self, fun i hi hlt => ?_⟩⟩
  rcases List.mem_append.mp hi with hi | hi
  · rcases List.mem_append.mp hi with hi | hi
    · exact ((List.pairwise_append.mp hbefore).2.2 i hi k (List.mem_singleton_self k)).le
    · exact (List.mem_singleton.mp hi).le
  · exact absurd hlt ((List.pairwise_cons.mp hafter).1 i hi).le.not_gt

/-- The last element of all, where none is in front of `p`. -/
theorem isPredecessor_of_first (h : (p :: (after ++ [k])).Pairwise (· < ·)) :
    IsPredecessor (after ++ [k]) p k := by
  obtain ⟨hp, hafter⟩ := List.pairwise_cons.mp h
  refine ⟨List.mem_append_right _ (List.mem_singleton_self k), Or.inr fun i hi => ⟨hp i hi, ?_⟩⟩
  rcases List.mem_append.mp hi with hi | hi
  · exact ((List.pairwise_append.mp hafter).2.2 i hi k (List.mem_singleton_self k)).le
  · exact (List.mem_singleton.mp hi).le

end Sorted

theorem findIdx?_middle {before after : List α} {p : α} (hp : p ∉ before) :
    (before ++ p :: after).findIdx? (fun q => decide (q = p)) = some before.length := by
  rw [List.findIdx?_eq_some_iff_getElem]
  refine ⟨by simp, by simp, fun j hj => ?_⟩
  rw [List.getElem_append_left hj, Bool.not_eq_true, decide_eq_false_iff_not]
  intro hj'
  exact hp (hj' ▸ List.getElem_mem hj)

/-- What a linear search for `p` in the sorted list leads to: the element in front of it, or the
last one. -/
theorem exists_isPredecessor {l s : List α} {p : α} (hs : s.Pairwise (· < ·))
    (hperm : s.Perm (l ++ [p])) (hl : l ≠ []) (d : α) :
    ∃ i, s.findIdx? (fun q => decide (q = p)) = some i ∧
      IsPredecessor l p (if 1 ≤ i then s.getD (i - 1) d else s.getD (s.length - 1) d) := by
  have hmem : p ∈ s := hperm.mem_iff.mpr (List.mem_append_right _ (List.mem_singleton_self p))
  obtain ⟨before, after, rfl⟩ := List.append_of_mem hmem
  have hbefore : p ∉ before := by
    intro hp
    exact lt_irrefl p ((List.pairwise_append.mp hs).2.2 p hp p List.mem_cons_self)
  have hrest : (before ++ after).Perm l := by
    have hcons := (List.perm_middle.symm.trans hperm).trans (List.perm_append_singleton p l)
    exact hcons.cons_inv
  refine ⟨before.length, findIdx?_middle hbefore, IsPredecessor.perm hrest ?_⟩
  rcases List.eq_nil_or_concat' before with rfl | ⟨front, k, rfl⟩
  · rcases List.eq_nil_or_concat' after with rfl | ⟨front, k, rfl⟩
    · exact absurd hrest.symm.eq_nil hl
    · have hlast : (p :: (front ++ [k])).getD ((p :: (front ++ [k])).length - 1) d = k := by
        simp [List.getD]
      rw [List.nil_append, if_neg (by simp), List.nil_append, hlast]
      exact isPredecessor_of_first hs
  · have hfront : (front ++ [k] ++ p :: after).getD ((front ++ [k]).length - 1) d = k := by
      simp [List.getD]
    rw [if_pos (by simp), hfront]
    exact isPredecessor_of_before hs

end Cyclic
