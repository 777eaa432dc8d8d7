import Mathlib.Data.Finset.Card
import Mathlib.Data.Finset.Insert
import Mathlib.Logic.Function.Basic

/-!
# A wait group

The counter knows how many have been added and are not done, and not who they are. Where
everybody is done once for each time that he was added, a counter at zero says that nobody
is inside, and none is ever counted below zero.
-/
namespace Go

/-- The counter of a wait group. -/
abbrev WaitGroup := Nat

namespace WaitGroup

def add (n : WaitGroup) : WaitGroup := n + 1

/-- `none` is the panic of a negative counter. -/
def done : WaitGroup → Option WaitGroup
  | 0 => none
  | n + 1 => some n

variable {ι : Type*} {n m : WaitGroup} {p : ι → Bool}

/-- Those inside are as many as the counter says. -/
def Counts (n : WaitGroup) (p : ι → Bool) : Prop :=
  ∃ s : Finset ι, s.card = n ∧ ∀ a, a ∈ s ↔ p a = true

theorem counts_empty : Counts 0 (fun _ : ι => false) :=
  ⟨∅, Finset.card_empty, fun a => ⟨fun h => absurd h (Finset.notMem_empty a), nofun⟩⟩

/-- `Wait` returns when nobody is inside. -/
theorem Counts.eq_zero_iff (h : Counts n p) : n = 0 ↔ ∀ a, p a = false := by
  obtain ⟨s, hcard, hs⟩ := h
  rw [← hcard, Finset.card_eq_zero, Finset.eq_empty_iff_forall_notMem]
  refine forall_congr' fun a => ?_
  rw [hs, Bool.not_eq_true]

variable [DecidableEq ι] {a : ι}

theorem Counts.add (h : Counts n p) (ha : p a = false) :
    Counts n.add (Function.update p a true) := by
  obtain ⟨s, hcard, hs⟩ := h
  have hnot : a ∉ s := fun hmem => Bool.false_ne_true (ha.symm.trans ((hs a).mp hmem))
  refine ⟨insert a s, by rw [Finset.card_insert_of_notMem hnot, hcard, WaitGroup.add],
    fun b => ?_⟩
  rw [Finset.mem_insert]
  by_cases hba : b = a
  · subst hba
    simp
  · rw [Function.update_of_ne hba, hs]
    exact or_iff_right hba

/-- One that is inside can be done. -/
theorem Counts.exists_done (h : Counts n p) (ha : p a = true) :
    ∃ m, n.done = some m ∧ Counts m (Function.update p a false) := by
  obtain ⟨s, hcard, hs⟩ := h
  have hmem : a ∈ s := (hs a).mpr ha
  have herase := Finset.card_erase_add_one hmem
  rw [hcard] at herase
  refine ⟨(s.erase a).card, by rw [← herase, WaitGroup.done], s.erase a, rfl, fun b => ?_⟩
  rw [Finset.mem_erase]
  by_cases hba : b = a
  · subst hba
    simp
  · rw [Function.update_of_ne hba, hs]
    exact and_iff_right hba

theorem Counts.done (h : Counts n p) (ha : p a = true) (hm : n.done = some m) :
    Counts m (Function.update p a false) := by
  obtain ⟨m', hm', hcounts⟩ := h.exists_done ha
  obtain rfl : m' = m := Option.some.inj (hm'.symm.trans hm)
  exact hcounts

end WaitGroup

end Go
