import YcAgent.Base.FirstWins

/-!
# `sort.Slice`

The sort is not stable: of equal elements any order can come out. What is known is that
the elements stay the same and that no later one is less than an earlier one.
-/
namespace Go

/-- `less` orders the elements as the comparison of a sort must. -/
structure StrictOrder {α : Type} (less : α → α → Bool) : Prop where
  trans : ∀ a b c, less b a = false → less c b = false → less c a = false
  total : ∀ a b, less a b = false ∨ less b a = false

/-- What is not less the other way round is an order as `List.mergeSort` takes it. -/
theorem StrictOrder.trans_not {α : Type} {less : α → α → Bool} (h : StrictOrder less) (a b c : α) :
    (!less b a) = true → (!less c b) = true → (!less c a) = true := by
  intro hab hbc
  simpa using h.trans a b c (by simpa using hab) (by simpa using hbc)

theorem StrictOrder.total_not {α : Type} {less : α → α → Bool} (h : StrictOrder less) (a b : α) :
    (!less b a || !less a b) = true := by
  rcases h.total a b with h | h
  · simp [h]
  · simp [h]

structure SortSlice where
  sort : {α : Type} → (α → α → Bool) → List α → List α
  perm : ∀ {α : Type} (less : α → α → Bool) (l : List α), (sort less l).Perm l
  sorted : ∀ {α : Type} (less : α → α → Bool) (l : List α), StrictOrder less →
    (sort less l).Pairwise fun a b => less b a = false

namespace SortSlice

/-- A sort that keeps the order of equal elements. -/
def stable : SortSlice where
  sort less l := l.mergeSort fun a b => !less b a
  perm less l := List.mergeSort_perm l _
  sorted := by
    intro α less l horder
    have hpairwise : (l.mergeSort fun a b => !less b a).Pairwise
        fun a b => (!less b a) = true :=
      List.pairwise_mergeSort horder.trans_not horder.total_not l
    exact hpairwise.imp fun h => by simpa using h

/-- A sort that takes the elements from the `k`-th one on first. -/
def turned (k : Nat) : SortSlice where
  sort less l := stable.sort less (l.drop k ++ l.take k)
  perm less l := by
    have hperm := stable.perm less (l.drop k ++ l.take k)
    have hturn : (l.drop k ++ l.take k).Perm l := by
      have hcomm : (l.drop k ++ l.take k).Perm (l.take k ++ l.drop k) := List.perm_append_comm
      rwa [List.take_append_drop] at hcomm
    exact hperm.trans hturn
  sorted less l horder := stable.sorted less _ horder

/-- Some sort puts an element first that nothing is less than. -/
theorem exists_head_eq {α : Type} {less : α → α → Bool} (horder : StrictOrder less) {l : List α}
    {a : α} (ha : a ∈ l) (hleast : ∀ b ∈ l, less b a = false) :
    ∃ (sorter : SortSlice) (rest : List α), sorter.sort less l = a :: rest := by
  obtain ⟨before, after, hl⟩ := List.append_of_mem ha
  have hturn : l.drop before.length ++ l.take before.length = a :: (after ++ before) := by
    rw [hl, List.drop_left, List.take_left, List.cons_append]
  obtain ⟨first, rest, hsort, -, hfirst⟩ :=
    List.mergeSort_cons horder.trans_not horder.total_not a (after ++ before)
  have hnil : first = [] := by
    refine List.eq_nil_iff_forall_not_mem.mpr fun b hb => ?_
    have hmem : b ∈ l := by
      have hb' : b ∈ (a :: (after ++ before)).mergeSort fun a b => !less b a := by
        rw [hsort]
        exact List.mem_append_left _ hb
      rw [List.mem_mergeSort, ← hturn] at hb'
      rcases List.mem_append.mp hb' with hb' | hb'
      · exact List.mem_of_mem_drop hb'
      · exact List.mem_of_mem_take hb'
    have hless := hfirst b hb
    rw [hleast b hmem] at hless
    cases hless
  refine ⟨turned before.length, rest, ?_⟩
  show (l.drop before.length ++ l.take before.length).mergeSort _ = _
  rw [hturn, hsort, hnil, List.nil_append]

variable (sorter : SortSlice) {α : Type}

theorem mem_sort (less : α → α → Bool) (l : List α) (a : α) :
    a ∈ sorter.sort less l ↔ a ∈ l := (sorter.perm less l).mem_iff

@[simp] theorem sort_nil (less : α → α → Bool) : sorter.sort less [] = [] :=
  (sorter.perm less []).eq_nil

theorem sort_ne_nil (less : α → α → Bool) {l : List α} (hl : l ≠ []) : sorter.sort less l ≠ [] := by
  intro h
  have hperm := sorter.perm less l
  rw [h] at hperm
  exact hl (List.nil_perm.mp hperm)

/-- No element is less than the first one of the sorted list. -/
theorem head_sort {less : α → α → Bool} (horder : StrictOrder less) {l : List α} {a : α}
    {rest : List α} (h : sorter.sort less l = a :: rest) :
    a ∈ l ∧ ∀ b ∈ l, less b a = false := by
  have hsorted := sorter.sorted less l horder
  rw [h, List.pairwise_cons] at hsorted
  have ha : a ∈ l := (sorter.mem_sort less l a).mp (h ▸ List.mem_cons_self)
  refine ⟨ha, ?_⟩
  intro b hb
  have hmem := (sorter.mem_sort less l b).mpr hb
  rw [h] at hmem
  rcases List.mem_cons.mp hmem with rfl | hmem
  · exact (horder.total b b).elim id id
  · exact hsorted.1 b hmem

end SortSlice

end Go
