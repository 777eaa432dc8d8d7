import Mathlib.Data.Finset.Card
import Mathlib.Data.List.Nodup

/-!
# The first occurrences of a list

`List.eraseDups` keeps the first of equal elements. An element stands in the
result behind as many others as there are different elements before its first
occurrence.
-/
namespace Dedup

variable {α : Type*} [DecidableEq α]

theorem eraseDups_snoc (xs : List α) (x : α) :
    (xs ++ [x]).eraseDups = if x ∈ xs then xs.eraseDups else xs.eraseDups ++ [x] := by
  rw [List.eraseDups_append]
  split
  · rename_i h
    simp [List.removeAll, h]
  · rename_i h
    simp [List.removeAll, h, List.eraseDups_cons]

theorem nodup_eraseDups (xs : List α) : xs.eraseDups.Nodup := by
  induction xs using List.reverseRecOn with
  | nil => exact List.nodup_nil
  | append_singleton xs x ih =>
    rw [eraseDups_snoc]
    split
    · exact ih
    · rename_i h
      refine List.nodup_append.mpr ⟨ih, List.nodup_singleton x, ?_⟩
      intro a ha b hb hab
      rw [List.mem_singleton.mp hb] at hab
      exact h (List.mem_eraseDups.mp (hab ▸ ha))

theorem length_eraseDups (xs : List α) : xs.eraseDups.length = xs.toFinset.card := by
  rw [← List.toFinset_card_of_nodup (nodup_eraseDups xs)]
  congr 1
  ext x
  rw [List.mem_toFinset, List.mem_toFinset, List.mem_eraseDups]

/-- An element that is new after `xs` comes right after the elements of `xs`. -/
theorem eraseDups_append_cons {xs : List α} {x : α} (h : x ∉ xs) (ys : List α) :
    ∃ rest, (xs ++ x :: ys).eraseDups = xs.eraseDups ++ x :: rest := by
  rw [List.eraseDups_append]
  refine ⟨((ys.removeAll xs).filter fun b => !b == x).eraseDups, ?_⟩
  have hremove : (x :: ys).removeAll xs = x :: ys.removeAll xs := by
    simp [List.removeAll, h]
  rw [hremove, List.eraseDups_cons]

end Dedup
