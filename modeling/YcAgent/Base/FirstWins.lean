import Mathlib.Data.Finmap

/-!
# Maps filled by "set if absent"

A Go map is a finite map without an order. Filling one from a list of pairs and
keeping the value that came first is the same as looking the key up in the list.
-/
namespace Go

abbrev GoMap (K V : Type*) := Finmap fun _ : K => V

variable {K V : Type*} [DecidableEq K]

theorem GoMap.forall_empty (P : K → V → Prop) (k : K) (v : V)
    (h : (∅ : GoMap K V).lookup k = some v) : P k v := by
  rw [Finmap.lookup_empty] at h
  cases h

/-- What holds of every entry and of a new one holds of every entry after the insertion. -/
theorem GoMap.forall_insert {P : K → V → Prop} {m : GoMap K V}
    (hm : ∀ k v, m.lookup k = some v → P k v) {k : K} {v : V} (hk : P k v) (k' : K) (v' : V)
    (h : (m.insert k v).lookup k' = some v') : P k' v' := by
  by_cases hkk : k' = k
  · subst hkk
    rw [Finmap.lookup_insert] at h
    exact Option.some.inj h ▸ hk
  · rw [Finmap.lookup_insert_of_ne _ hkk] at h
    exact hm k' v' h

/-- `if _, ok := m[k]; !ok { m[k] = v }`. -/
def setIfAbsent (m : GoMap K V) (k : K) (v : V) : GoMap K V :=
  if k ∈ m then m else m.insert k v

/-- The first value of a key in a list of pairs. -/
def firstValue (k : K) (pairs : List (K × V)) : Option V :=
  (pairs.find? (fun kv => kv.1 = k)).map Prod.snd

def firstWins (m : GoMap K V) (pairs : List (K × V)) : GoMap K V :=
  pairs.foldl (fun m kv => setIfAbsent m kv.1 kv.2) m

theorem lookup_setIfAbsent (m : GoMap K V) (k k' : K) (v : V) :
    (setIfAbsent m k v).lookup k' = (m.lookup k').or (if k = k' then some v else none) := by
  unfold setIfAbsent
  split
  · rename_i h
    obtain ⟨w, hw⟩ := Finmap.mem_iff.mp h
    by_cases hk : k = k'
    · subst hk
      simp [hw]
    · simp [hk]
  · rename_i h
    by_cases hk : k = k'
    · subst hk
      simp [Finmap.lookup_eq_none.mpr h]
    · simp [Finmap.lookup_insert_of_ne _ (Ne.symm hk), hk]

theorem firstValue_cons (k : K) (kv : K × V) (pairs : List (K × V)) :
    firstValue k (kv :: pairs) =
      (if kv.1 = k then some kv.2 else none).or (firstValue k pairs) := by
  by_cases h : kv.1 = k <;> simp [firstValue, h]

theorem firstWins_append (m : GoMap K V) (xs ys : List (K × V)) :
    firstWins m (xs ++ ys) = firstWins (firstWins m xs) ys := List.foldl_append

theorem firstValue_append (k : K) (xs ys : List (K × V)) :
    firstValue k (xs ++ ys) = (firstValue k xs).or (firstValue k ys) := by
  simp only [firstValue, List.find?_append, Option.map_or]

theorem firstValue_map_const {α : Type*} (key : α → K) (v : V) (k : K) (l : List α) :
    firstValue k (l.map fun a => (key a, v)) = if ∃ a ∈ l, key a = k then some v else none := by
  induction l with
  | nil => simp [firstValue]
  | cons a l ih =>
    rw [List.map_cons, firstValue_cons, ih]
    by_cases h : key a = k <;> simp [h]

/-- An entry already there wins over the list, and the head of the list over its tail. -/
theorem lookup_firstWins (m : GoMap K V) (k : K) (pairs : List (K × V)) :
    (firstWins m pairs).lookup k = (m.lookup k).or (firstValue k pairs) := by
  induction pairs generalizing m with
  | nil => simp [firstWins, firstValue]
  | cons kv pairs ih =>
    show (firstWins (setIfAbsent m kv.1 kv.2) pairs).lookup k = _
    rw [ih, lookup_setIfAbsent, firstValue_cons, Option.or_assoc]

theorem lookup_firstWins_empty (k : K) (pairs : List (K × V)) :
    (firstWins (∅ : GoMap K V) pairs).lookup k = firstValue k pairs := by
  rw [lookup_firstWins, Finmap.lookup_empty, Option.none_or]

end Go
