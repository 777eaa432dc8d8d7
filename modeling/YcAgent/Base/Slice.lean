import Mathlib.Data.List.TakeDrop

/-!
# Slices of a list that grows

`slice c i j` is what a list holds from position `i` up to position `j`. Growth at
the end leaves the slices inside the list as they are.
-/
namespace Slice

variable {α : Type*}

def slice (c : List α) (i j : Nat) : List α := (c.take j).drop i

@[simp] theorem slice_self (c : List α) (i : Nat) : slice c i i = [] := by
  rw [slice, List.drop_eq_nil_iff]
  exact List.length_take_le i c

theorem slice_of_grown {c c' : List α} {j : Nat} (hc : c <+: c') (h : j ≤ c.length) (i : Nat) :
    slice c' i j = slice c i j := by
  obtain ⟨b, rfl⟩ := hc
  rw [slice, slice, List.take_append_of_le_length h]

theorem slice_append_slice (c : List α) {i j k : Nat} (hij : i ≤ j) (hjk : j ≤ k) :
    slice c i j ++ slice c j k = slice c i k := by
  have hsplit : c.take k = c.take j ++ (c.take k).drop j := by
    conv_lhs => rw [← List.take_append_drop j (c.take k), List.take_take, Nat.min_eq_left hjk]
  by_cases hj : j ≤ c.length
  · have hi : i ≤ (c.take j).length := by rw [List.length_take]; omega
    unfold slice
    conv_rhs => rw [hsplit, List.drop_append_of_le_length hi]
  · have htake : c.take j = c.take k := by
      rw [List.take_of_length_le (by omega), List.take_of_length_le (by omega)]
    have hnil : slice c j k = [] := by
      rw [slice, List.drop_eq_nil_iff, List.length_take]
      omega
    rw [hnil, List.append_nil, slice, slice, htake]

/-- A chunk read at position `j` is a slice. -/
theorem take_drop_eq_slice (c : List α) (j n : Nat) :
    (c.drop j).take n = slice c j (j + ((c.drop j).take n).length) := by
  rw [slice, List.drop_take, Nat.add_sub_cancel_left, List.length_take]
  by_cases h : n ≤ (c.drop j).length
  · rw [Nat.min_eq_left h]
  · rw [Nat.min_eq_right (by omega), List.take_length, List.take_of_length_le (by omega)]

theorem getElem?_slice {l : List α} {i j m : Nat} (him : i ≤ m) (hmj : m < j) :
    (slice l i j)[m - i]? = l[m]? := by
  rw [slice, List.getElem?_drop, List.getElem?_take, if_pos (by omega)]
  congr 1
  omega

end Slice
