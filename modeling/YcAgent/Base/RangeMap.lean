import Mathlib.Data.List.Perm.Basic
import YcAgent.Base.Dedup

/-!
# Maps a program ranges over

`range` visits every entry of a Go map once, in an order that differs from run to
run. The map keeps one listing of its entries, and the order of a run is a
permutation of it that the program does not choose.
-/
namespace Go

variable {K V : Type*}

/-- The order in which `range` visits the entries of each map. -/
structure RangeOrder (K V : Type*) where
  visit : List (K × V) → List (K × V)
  perm : ∀ entries, (visit entries).Perm entries

namespace RangeOrder

def listed : RangeOrder K V := ⟨id, fun _ => List.Perm.refl _⟩

def reversed : RangeOrder K V := ⟨List.reverse, List.reverse_perm⟩

@[simp] theorem mem_visit (o : RangeOrder K V) (entries : List (K × V)) (kv : K × V) :
    kv ∈ o.visit entries ↔ kv ∈ entries := (o.perm entries).mem_iff

end RangeOrder

/-- A list without repetition that reads the same backwards has at most one element. -/
theorem length_le_one_of_reverse_eq {α : Type*} {l : List α} (hnodup : l.Nodup)
    (h : l.reverse = l) : l.length ≤ 1 := by
  match l, hnodup, h with
  | [], _, _ => exact Nat.zero_le 1
  | [_], _, _ => exact Nat.le_refl 1
  | a :: b :: rest, hnodup, h =>
    have hlast : (a :: b :: rest).getLast? = some a := by
      rw [← List.head?_reverse, h]
      rfl
    have hmem : a ∈ b :: rest := by
      rw [List.getLast?_cons_cons] at hlast
      exact List.mem_of_getLast? hlast
    exact absurd hmem (List.nodup_cons.mp hnodup).1

variable [DecidableEq K]

/-- `m[k] = v` on a listing of the entries. -/
def assign (k : K) (v : V) : List (K × V) → List (K × V)
  | [] => [(k, v)]
  | kv :: rest => if kv.1 = k then (k, v) :: rest else kv :: assign k v rest

theorem keys_assign (k : K) (v : V) (entries : List (K × V)) :
    (assign k v entries).map Prod.fst =
      if k ∈ entries.map Prod.fst then entries.map Prod.fst else entries.map Prod.fst ++ [k] := by
  induction entries with
  | nil => simp [assign]
  | cons kv rest ih =>
    by_cases hk : kv.1 = k
    · simp [assign, hk]
    · simp only [assign, if_neg hk, List.map_cons, ih, List.mem_cons, Ne.symm hk, false_or]
      split <;> rfl

theorem mem_assign {k : K} {v : V} {entries : List (K × V)}
    (hnodup : (entries.map Prod.fst).Nodup) (kv : K × V) :
    kv ∈ assign k v entries ↔ kv = (k, v) ∨ kv.1 ≠ k ∧ kv ∈ entries := by
  induction entries with
  | nil => simp [assign]
  | cons e rest ih =>
    obtain ⟨hnot, hrest⟩ := List.nodup_cons.mp hnodup
    by_cases hk : e.1 = k
    · have hkey : kv ∈ rest → kv.1 ≠ k := by
        intro hkv he
        exact hnot (hk ▸ he ▸ List.mem_map_of_mem hkv)
      simp only [assign, if_pos hk, List.mem_cons]
      constructor
      · intro h
        exact h.imp_right fun hkv => ⟨hkey hkv, Or.inr hkv⟩
      · intro h
        refine h.imp_right ?_
        intro ⟨hne, hkv⟩
        exact hkv.resolve_left fun he => hne (he ▸ hk)
    · simp only [assign, if_neg hk, List.mem_cons, ih hrest]
      constructor
      · intro h
        rcases h with rfl | h | ⟨hne, h⟩
        · exact Or.inr ⟨hk, Or.inl rfl⟩
        · exact Or.inl h
        · exact Or.inr ⟨hne, Or.inr h⟩
      · intro h
        rcases h with h | ⟨hne, h | h⟩
        · exact Or.inr (Or.inl h)
        · exact Or.inl h
        · exact Or.inr (Or.inr ⟨hne, h⟩)

/-- A Go map with one listing of its entries. -/
structure RangeMap (K V : Type*) where
  entries : List (K × V)
  nodupKeys : (entries.map Prod.fst).Nodup

namespace RangeMap

def empty : RangeMap K V := ⟨[], List.nodup_nil⟩

def keys (m : RangeMap K V) : List K := m.entries.map Prod.fst

def set (m : RangeMap K V) (k : K) (v : V) : RangeMap K V where
  entries := assign k v m.entries
  nodupKeys := by
    rw [keys_assign]
    split
    · exact m.nodupKeys
    · rename_i h
      refine List.nodup_append.mpr ⟨m.nodupKeys, List.nodup_singleton k, ?_⟩
      intro a ha b hb hab
      exact h (List.mem_singleton.mp hb ▸ hab ▸ ha)

/-- `delete(m, k)`. -/
def erase (m : RangeMap K V) (k : K) : RangeMap K V where
  entries := m.entries.filter fun kv => kv.1 ≠ k
  nodupKeys := m.nodupKeys.sublist (List.filter_sublist.map _)

theorem mem_erase (m : RangeMap K V) (k : K) (kv : K × V) :
    kv ∈ (m.erase k).entries ↔ kv.1 ≠ k ∧ kv ∈ m.entries := by
  rw [erase, List.mem_filter, decide_eq_true_eq, and_comm]

/-- The assignments of a loop, the later ones over the earlier ones. -/
def setAll (m : RangeMap K V) (pairs : List (K × V)) : RangeMap K V :=
  pairs.foldl (fun m kv => m.set kv.1 kv.2) m

theorem mem_set (m : RangeMap K V) (k : K) (v : V) (kv : K × V) :
    kv ∈ (m.set k v).entries ↔ kv = (k, v) ∨ kv.1 ≠ k ∧ kv ∈ m.entries :=
  mem_assign m.nodupKeys kv

/-- What holds of every entry and of every assignment holds of every entry after them. -/
theorem forall_setAll {P : K × V → Prop} {m : RangeMap K V} (hm : ∀ kv ∈ m.entries, P kv)
    {pairs : List (K × V)} (hpairs : ∀ kv ∈ pairs, P kv) :
    ∀ kv ∈ (m.setAll pairs).entries, P kv := by
  induction pairs generalizing m with
  | nil => exact hm
  | cons p pairs ih =>
    obtain ⟨hp, hrest⟩ := List.forall_mem_cons.mp hpairs
    refine ih (m := m.set p.1 p.2) ?_ hrest
    intro kv hkv
    rcases (mem_set m p.1 p.2 kv).mp hkv with rfl | ⟨-, hkv⟩
    · exact hp
    · exact hm kv hkv

/-- An entry whose key is not assigned again stays. -/
theorem mem_setAll_of_mem {m : RangeMap K V} {kv : K × V} (hkv : kv ∈ m.entries)
    {pairs : List (K × V)} (hpairs : ∀ p ∈ pairs, p.1 ≠ kv.1) :
    kv ∈ (m.setAll pairs).entries := by
  induction pairs generalizing m with
  | nil => exact hkv
  | cons p pairs ih =>
    obtain ⟨hp, hrest⟩ := List.forall_mem_cons.mp hpairs
    exact ih ((mem_set m p.1 p.2 kv).mpr (Or.inr ⟨hp.symm, hkv⟩)) hrest

/-- An assignment whose key is not assigned again is an entry at the end. -/
theorem mem_setAll_of_last (m : RangeMap K V) (pre : List (K × V)) (kv : K × V)
    {post : List (K × V)} (hpost : ∀ p ∈ post, p.1 ≠ kv.1) :
    kv ∈ (m.setAll (pre ++ kv :: post)).entries := by
  have hstep : m.setAll (pre ++ kv :: post) = ((m.setAll pre).set kv.1 kv.2).setAll post := by
    rw [setAll, List.foldl_append, List.foldl_cons]
    rfl
  rw [hstep]
  exact mem_setAll_of_mem ((mem_set _ kv.1 kv.2 kv).mpr (Or.inl rfl)) hpost

theorem keys_setAll_empty (pairs : List (K × V)) :
    (empty.setAll pairs).keys = (pairs.map Prod.fst).eraseDups := by
  induction pairs using List.reverseRecOn with
  | nil => rfl
  | append_singleton pairs p ih =>
    have hstep : (empty.setAll (pairs ++ [p])).entries =
        assign p.1 p.2 (empty.setAll pairs).entries := by
      rw [setAll, List.foldl_append]
      rfl
    have hkeys : (empty.setAll pairs).entries.map Prod.fst = (pairs.map Prod.fst).eraseDups := ih
    rw [keys, hstep, keys_assign, hkeys, List.map_append, List.map_singleton, Dedup.eraseDups_snoc]
    simp only [List.mem_eraseDups]

/-- `v, ok := m[k]`. -/
def get? (m : RangeMap K V) (k : K) : Option V :=
  (m.entries.find? fun kv => kv.1 = k).map Prod.snd

theorem get?_eq_some_iff (m : RangeMap K V) {k : K} {v : V} :
    m.get? k = some v ↔ (k, v) ∈ m.entries := by
  unfold get?
  constructor
  · intro h
    obtain ⟨kv, hfind, rfl⟩ := Option.map_eq_some_iff.mp h
    have hkey : kv.1 = k := by simpa using List.find?_some hfind
    exact hkey ▸ List.mem_of_find?_eq_some hfind
  · intro hmem
    cases hfind : m.entries.find? fun kv => kv.1 = k with
    | none =>
      have hnone := List.find?_eq_none.mp hfind (k, v) hmem
      simp at hnone
    | some kv =>
      have hkey : kv.1 = k := by simpa using List.find?_some hfind
      have hkv : kv = (k, v) :=
        List.inj_on_of_nodup_map m.nodupKeys (List.mem_of_find?_eq_some hfind) hmem hkey
      rw [hkv]
      rfl

theorem get?_set (m : RangeMap K V) (k : K) (v : V) (k' : K) :
    (m.set k v).get? k' = if k' = k then some v else m.get? k' := by
  refine Option.ext fun w => ?_
  rw [get?_eq_some_iff, mem_set, Prod.mk.injEq]
  by_cases hk : k' = k
  · rw [if_pos hk]
    simp [hk, eq_comm]
  · rw [if_neg hk, get?_eq_some_iff]
    simp [hk]

end RangeMap

end Go
