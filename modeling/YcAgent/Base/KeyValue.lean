import YcAgent.Base.Url

/-!
# Lines of keys and values

A line is a key, the first `=` in it and a value to the end of the line.
-/
namespace Go.KeyValue

open Url

def line (p : GoString × GoString) : GoString := p.1 ++ equals :: p.2

def render (pairs : List (GoString × GoString)) : GoString := join (pairs.map line) [newline]

def read (s : GoString) : List (GoString × GoString) :=
  (split s newline).map fun l => cut l equals

def IsKey (key : GoString) : Prop := newline ∉ key ∧ equals ∉ key

instance (key : GoString) : Decidable (IsKey key) := inferInstanceAs (Decidable (_ ∧ _))

theorem render_singleton (p : GoString × GoString) : render [p] = line p := by
  rw [render, join, List.map_singleton, List.intercalate_singleton]

theorem render_cons_cons (p q : GoString × GoString) (pairs : List (GoString × GoString)) :
    render (p :: q :: pairs) = line p ++ newline :: render (q :: pairs) := by
  have hjoin : render (p :: q :: pairs) = line p ++ [newline] ++ render (q :: pairs) :=
    List.intercalate_cons_cons
  rw [hjoin, List.append_assoc, List.singleton_append]

theorem render_ne_nil {pairs : List (GoString × GoString)} (h : pairs ≠ []) :
    render pairs ≠ [] := by
  match pairs with
  | [] => exact absurd rfl h
  | [p] => simp [render_singleton, line]
  | p :: q :: pairs => simp [render_cons_cons]

theorem count_join {pieces : List GoString} (hne : pieces ≠ []) :
    (join pieces [newline]).count newline + 1 =
      (pieces.map (List.count newline)).sum + pieces.length := by
  induction pieces with
  | nil => exact absurd rfl hne
  | cons first rest ih =>
    cases rest with
    | nil => rw [join, List.intercalate_singleton]; rfl
    | cons second rest =>
      have hrest : (join (second :: rest) [newline]).count newline + 1 = _ :=
        ih (List.cons_ne_nil second rest)
      have hjoin : join (first :: second :: rest) [newline] =
          first ++ [newline] ++ join (second :: rest) [newline] :=
        List.intercalate_cons_cons
      rw [hjoin, List.count_append, List.count_append, List.count_singleton_self, List.map_cons,
        List.sum_cons, List.length_cons]
      omega

variable {pairs : List (GoString × GoString)}

theorem count_line {p : GoString × GoString} (h : IsKey p.1) :
    (line p).count newline = p.2.count newline := by
  have hne : equals ≠ newline := by decide
  rw [line, List.count_append, List.count_cons_of_ne hne, List.count_eq_zero_of_not_mem h.1,
    Nat.zero_add]

/-- What is read is what was written exactly where no value has a newline. -/
theorem read_render_iff (hne : pairs ≠ []) (hkeys : ∀ p ∈ pairs, IsKey p.1) :
    read (render pairs) = pairs ↔ ∀ p ∈ pairs, newline ∉ p.2 := by
  have hlines : pairs.map line ≠ [] := by rwa [ne_eq, List.map_eq_nil_iff]
  constructor
  · intro h p hp hnewline
    -- A newline in a value is one line more.
    have hlen : (read (render pairs)).length = pairs.length := by rw [h]
    rw [read, List.length_map, length_split, render, count_join hlines, List.length_map] at hlen
    have hzero : ((pairs.map line).map (List.count newline)).sum = 0 := by omega
    have hcount := List.sum_eq_zero_iff_forall_eq_nat.mp hzero _
      (List.mem_map_of_mem (List.mem_map_of_mem hp))
    rw [count_line (hkeys p hp)] at hcount
    exact List.count_eq_zero.mp hcount hnewline
  · intro h
    have hclean : ∀ l ∈ pairs.map line, newline ∉ l := by
      refine List.forall_mem_map.mpr fun p hp => ?_
      rw [← List.count_eq_zero, count_line (hkeys p hp), List.count_eq_zero]
      exact h p hp
    rw [read, render, join, split, List.splitOn_intercalate _ hclean hlines, List.map_map]
    refine (List.map_congr_left fun p hp => ?_).trans (List.map_id pairs)
    exact cut_append_cons (hkeys p hp).2

end Go.KeyValue
