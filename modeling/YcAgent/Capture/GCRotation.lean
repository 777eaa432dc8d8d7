import YcAgent.Base.Cyclic
import YcAgent.Capture.GCLog

/-!
# The logs of a rotation

A JVM that rotates its log numbers the files and starts over behind the last one. Which file was
written before the current one is read off the numbers alone.
-/
namespace YcAgent.Capture

open Go

/-! ## The previous log -/

theorem pairwise_lt_mergeSort {files : List Int} (hnodup : files.Nodup) :
    (files.mergeSort fun a b => decide (a ≤ b)).Pairwise (· < ·) := by
  have hle : (files.mergeSort fun a b => decide (a ≤ b)).Pairwise (· ≤ ·) := by
    have hsorted : (files.mergeSort fun a b => decide (a ≤ b)).Pairwise
        fun a b => decide (a ≤ b) = true := by
      refine List.pairwise_mergeSort ?_ ?_ files
      · intro a b c hab hbc
        exact decide_eq_true (le_trans (of_decide_eq_true hab) (of_decide_eq_true hbc))
      · intro a b
        simpa using le_total a b
    exact hsorted.imp of_decide_eq_true
  have hne : (files.mergeSort fun a b => decide (a ≤ b)).Pairwise (· ≠ ·) :=
    (List.mergeSort_perm files _).nodup_iff.mpr hnodup
  exact (hle.and hne).imp fun h => lt_of_le_of_ne h.1 h.2

theorem previousLog_singleton (path : GoString) (p k : Int) :
    previousLog path p [k] = path ++ str "." ++ itoa k := rfl

/-- Which log is taken for the previous one: that of the cyclic predecessor, and none where there
is no other log. -/
theorem previousLog_cyclic (path : GoString) {p : Int} {files : List Int} (hnodup : files.Nodup)
    (hp : p ∉ files) :
    (files = [] → previousLog path p files = []) ∧
      (files ≠ [] → ∃ k, Cyclic.IsPredecessor files p k ∧
        previousLog path p files = path ++ str "." ++ itoa k) := by
  refine ⟨fun hnil => by rw [hnil]; rfl, fun hne => ?_⟩
  by_cases hone : files.length = 1
  · obtain ⟨k, rfl⟩ := List.length_eq_one_iff.mp hone
    refine ⟨k, ⟨List.mem_singleton_self k, ?_⟩, previousLog_singleton path p k⟩
    -- the only index is the greatest one, below `p` or above
    rcases lt_or_gt_of_ne (fun heq : k = p => hp (heq ▸ List.mem_singleton_self k)) with hlt | hgt
    · exact Or.inl ⟨hlt, fun i hi _ => (List.mem_singleton.mp hi).le⟩
    · refine Or.inr fun i hi => ?_
      rw [List.mem_singleton.mp hi]
      exact ⟨hgt, le_refl k⟩
  · have hmany : 1 < files.length := by
      have hpos := List.length_pos_of_ne_nil hne
      omega
    have hall : (files ++ [p]).Nodup := by
      rw [List.nodup_append_comm]
      exact List.nodup_cons.mpr ⟨hp, hnodup⟩
    obtain ⟨i, hi, hpred⟩ := Cyclic.exists_isPredecessor (pairwise_lt_mergeSort hall)
      (List.mergeSort_perm _ _) hne 0
    refine ⟨_, hpred, ?_⟩
    unfold previousLog
    rw [if_neg hone, if_pos hmany]
    dsimp only
    rw [hi]
    dsimp only
    split
    · rfl
    · rfl

theorem previousLog_cyclic_wraps :
    ∃ k, Cyclic.IsPredecessor [4, 2, 3] 1 k ∧
      previousLog (str "gc.log") 1 [4, 2, 3] = str "gc.log" ++ str "." ++ itoa k :=
  (previousLog_cyclic (str "gc.log") (by decide) (by decide)).2 (by decide)

end YcAgent.Capture
