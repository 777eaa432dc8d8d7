import YcAgent.Base.Decimal
import YcAgent.Base.FilePath
import YcAgent.Base.Utf8

/-!
# Regular expressions that begin with a name

Of a name without other special characters only the dots are read as a pattern, each for
any character but a newline. A search without an anchor takes the leftmost match.
-/
namespace Go

/-! ## The leftmost match -/

/-- The first result, character by character from the left; the first `k` bytes belong to
the character in front. -/
def leftmost {β : Type*} (here : GoString → Option β) : ℕ → GoString → Option β
  | _, [] => here []
  | 0, b :: s => (here (b :: s)).or (leftmost here (runeLen (b :: s) - 1) s)
  | k + 1, _ :: s => leftmost here k s

theorem leftmost_of_here {β : Type*} {here : GoString → Option β} {s : GoString} {x : β}
    (h : here s = some x) : leftmost here 0 s = some x := by
  cases s with
  | nil => exact h
  | cons b s => rw [leftmost, h, Option.some_or]

theorem leftmost_eq_none {β : Type*} {here : GoString → Option β} {s : GoString}
    (h : ∀ t, t <:+ s → here t = none) (k : ℕ) : leftmost here k s = none := by
  induction s generalizing k with
  | nil => exact h [] List.suffix_rfl
  | cons b s ih =>
    have hrest : ∀ t, t <:+ s → here t = none := fun t ht => h t (ht.trans (List.suffix_cons b s))
    cases k with
    | zero => rw [leftmost, h _ List.suffix_rfl, Option.none_or, ih hrest]
    | succ k => exact ih hrest k

theorem exists_of_leftmost {β : Type*} {here : GoString → Option β} {k : ℕ} {s : GoString} {x : β}
    (h : leftmost here k s = some x) : ∃ t, t <:+ s ∧ here t = some x := by
  induction s generalizing k with
  | nil =>
    cases k with
    | zero => exact ⟨[], List.suffix_rfl, h⟩
    | succ k => exact ⟨[], List.suffix_rfl, h⟩
  | cons b s ih =>
    have hlater {k : ℕ} (h : leftmost here k s = some x) : ∃ t, t <:+ b :: s ∧ here t = some x := by
      obtain ⟨t, ht, hx⟩ := ih h
      exact ⟨t, ht.trans (List.suffix_cons b s), hx⟩
    cases k with
    | zero =>
      rw [leftmost] at h
      rcases Option.or_eq_some_iff.mp h with hfirst | ⟨-, hrest⟩
      · exact ⟨_, List.suffix_rfl, hfirst⟩
      · exact hlater hrest
    | succ k => exact hlater h

/-! ## Names as patterns -/

/-- What is left of the text behind the name. -/
def behindName : GoString → GoString → Option GoString
  | [], s => some s
  | c :: name, s =>
    if c = dot then
      match s with
      | [] => none
      | b :: _ => if b = newline then none else behindName name (s.drop (runeLen s))
    else
      match s with
      | [] => none
      | b :: t => if b = c then behindName name t else none

theorem behindName_cons (c : Byte) (name s : GoString) :
    behindName (c :: name) s =
      if c = dot then
        match s with
        | [] => none
        | b :: _ => if b = newline then none else behindName name (s.drop (runeLen s))
      else
        match s with
        | [] => none
        | b :: t => if b = c then behindName name t else none := by
  cases s with
  | nil => rfl
  | cons b t => rfl

theorem behindName_suffix {name s rest : GoString} (h : behindName name s = some rest) :
    rest <:+ s ∧ name.length + rest.length ≤ s.length := by
  induction name generalizing s with
  | nil =>
    obtain rfl : s = rest := Option.some.inj h
    exact ⟨List.suffix_rfl, by simp⟩
  | cons c name ih =>
    rw [behindName_cons] at h
    split at h
    · cases s with
      | nil => cases h
      | cons b s =>
        simp only at h
        split at h
        · cases h
        · obtain ⟨hsuffix, hlen⟩ := ih h
          have hbounds := runeLen_bounds (List.cons_ne_nil b s)
          refine ⟨hsuffix.trans (List.drop_suffix _ _), ?_⟩
          rw [List.length_drop] at hlen
          rw [List.length_cons]
          omega
    · cases s with
      | nil => cases h
      | cons b s =>
        simp only at h
        split at h
        · obtain ⟨hsuffix, hlen⟩ := ih h
          refine ⟨hsuffix.trans (List.suffix_cons b s), ?_⟩
          simp only [List.length_cons]
          omega
        · cases h

/-- A name is found at itself. -/
theorem behindName_append (name rest : GoString) :
    behindName name (name ++ rest) = some rest := by
  induction name with
  | nil => rfl
  | cons c name ih =>
    rw [List.cons_append, behindName_cons]
    by_cases hdot : c = dot
    · subst hdot
      rw [if_pos rfl]
      show (if dot = newline then none else behindName name
        ((dot :: (name ++ rest)).drop (runeLen (dot :: (name ++ rest))))) = some rest
      rw [if_neg (by decide), runeLen_of_ascii (by decide)]
      exact ih
    · rw [if_neg hdot]
      show (if c = c then behindName name (name ++ rest) else none) = some rest
      rw [if_pos rfl]
      exact ih

/-- A dot with digits behind it, and what is left. -/
def dotDigits : GoString → Option (GoString × GoString)
  | [] => none
  | b :: s =>
    if b = dot ∧ s.takeWhile (IsDigit ·) ≠ [] then
      some (s.takeWhile (IsDigit ·), s.dropWhile (IsDigit ·))
    else none

theorem dotDigits_append {ds back : GoString} (hne : ds ≠ []) (hds : ∀ b ∈ ds, IsDigit b)
    (hback : ∀ b, back.head? = some b → ¬ IsDigit b) :
    dotDigits (dot :: (ds ++ back)) = some (ds, back) := by
  have hall : ∀ b ∈ ds, decide (IsDigit b) = true := fun b hb => decide_eq_true (hds b hb)
  have htake : (ds ++ back).takeWhile (IsDigit ·) = ds := by
    rw [List.takeWhile_append_of_pos hall]
    cases back with
    | nil => simp
    | cons b back =>
      have hb : ¬ decide (IsDigit b) = true := by simpa using hback b rfl
      rw [List.takeWhile_cons, if_neg hb, List.append_nil]
  have hdrop : (ds ++ back).dropWhile (IsDigit ·) = back := by
    rw [List.dropWhile_append_of_pos hall]
    cases back with
    | nil => rfl
    | cons b back =>
      have hb : ¬ decide (IsDigit b) = true := by simpa using hback b rfl
      rw [List.dropWhile_cons, if_neg hb]
  rw [dotDigits, htake, hdrop, if_pos ⟨rfl, hne⟩]

theorem dotDigits_suffix {s ds back : GoString} (h : dotDigits s = some (ds, back)) :
    back <:+ s := by
  cases s with
  | nil => cases h
  | cons b s =>
    rw [dotDigits] at h
    split at h
    · obtain ⟨-, rfl⟩ := Prod.mk.inj (Option.some.inj h)
      exact (List.dropWhile_suffix _).trans (List.suffix_cons b s)
    · cases h

end Go
