import YcAgent.Base.Strings

/-!
# The first rune of a byte string

`utf8.DecodeRuneInString` reads one well-formed sequence of one to four bytes. Bytes
that do not start such a sequence count one by one.
-/
namespace Go

def inRange (lo hi b : Byte) : Bool := decide (lo ≤ b ∧ b ≤ hi)

/-- The ranges of the bytes that must follow a first byte; none for a byte that starts no
sequence. -/
def followers (b : Byte) : Option (List (Byte × Byte)) :=
  if b < 0x80 then some []
  else if inRange 0xC2 0xDF b then some [(0x80, 0xBF)]
  else if b = 0xE0 then some [(0xA0, 0xBF), (0x80, 0xBF)]
  else if b = 0xED then some [(0x80, 0x9F), (0x80, 0xBF)]
  else if inRange 0xE1 0xEF b then some [(0x80, 0xBF), (0x80, 0xBF)]
  else if b = 0xF0 then some [(0x90, 0xBF), (0x80, 0xBF), (0x80, 0xBF)]
  else if b = 0xF4 then some [(0x80, 0x8F), (0x80, 0xBF), (0x80, 0xBF)]
  else if inRange 0xF1 0xF3 b then some [(0x80, 0xBF), (0x80, 0xBF), (0x80, 0xBF)]
  else none

def startsInRanges : List (Byte × Byte) → GoString → Bool
  | [], _ => true
  | _ :: _, [] => false
  | (lo, hi) :: ranges, b :: t => inRange lo hi b && startsInRanges ranges t

/-- The length of a well-formed sequence in front; none when there is none. -/
def validRuneLen? : GoString → Option Nat
  | [] => none
  | b :: t => (followers b).bind fun ranges =>
      if startsInRanges ranges t then some (ranges.length + 1) else none

/-- How many bytes the first rune takes. -/
def runeLen (s : GoString) : Nat := (validRuneLen? s).getD 1

theorem length_le_of_startsInRanges {ranges : List (Byte × Byte)} {s : GoString}
    (h : startsInRanges ranges s = true) : ranges.length ≤ s.length := by
  induction ranges generalizing s with
  | nil => exact Nat.zero_le _
  | cons r ranges ih =>
    cases s with
    | nil => cases h
    | cons b t =>
      rw [startsInRanges, Bool.and_eq_true] at h
      exact Nat.succ_le_succ (ih h.2)

theorem validRuneLen?_bounds {s : GoString} {n : Nat} (h : validRuneLen? s = some n) :
    0 < n ∧ n ≤ s.length := by
  cases s with
  | nil => cases h
  | cons b t =>
    rw [validRuneLen?, Option.bind_eq_some_iff] at h
    obtain ⟨ranges, -, h⟩ := h
    split at h
    · rename_i hstarts
      cases h
      exact ⟨Nat.succ_pos _, Nat.succ_le_succ (length_le_of_startsInRanges hstarts)⟩
    · cases h

theorem startsInRanges_append {ranges : List (Byte × Byte)} {s : GoString}
    (h : startsInRanges ranges s = true) (t : GoString) :
    startsInRanges ranges (s ++ t) = true := by
  induction ranges generalizing s with
  | nil => exact startsInRanges.eq_1 (s ++ t)
  | cons r ranges ih =>
    cases s with
    | nil => cases h
    | cons b s =>
      rw [startsInRanges, Bool.and_eq_true] at h
      rw [List.cons_append, startsInRanges, Bool.and_eq_true]
      exact ⟨h.1, ih h.2⟩

/-- What stands behind a whole rune does not change its length. -/
theorem validRuneLen?_append {s : GoString} {n : Nat} (h : validRuneLen? s = some n)
    (t : GoString) : validRuneLen? (s ++ t) = some n := by
  cases s with
  | nil => cases h
  | cons b s =>
    rw [validRuneLen?, Option.bind_eq_some_iff] at h
    obtain ⟨ranges, hranges, h⟩ := h
    split at h
    · rename_i hstarts
      rw [List.cons_append, validRuneLen?, hranges, Option.bind_some,
        if_pos (startsInRanges_append hstarts t)]
      exact h
    · cases h

theorem runeLen_of_ascii {b : Byte} (hb : b < 0x80) (t : GoString) : runeLen (b :: t) = 1 := by
  rw [runeLen, validRuneLen?, followers, if_pos hb]
  rfl

theorem runeLen_bounds {s : GoString} (hs : s ≠ []) : 0 < runeLen s ∧ runeLen s ≤ s.length := by
  unfold runeLen
  cases h : validRuneLen? s with
  | none => exact ⟨Nat.one_pos, List.length_pos_iff.mpr hs⟩
  | some n => exact validRuneLen?_bounds h

/-- `utf8.ValidString` behind the first `k` bytes, which belong to the rune in front. -/
def validFrom : Nat → GoString → Bool
  | k, [] => k = 0
  | 0, b :: s =>
    match validRuneLen? (b :: s) with
    | none => false
    | some n => validFrom (n - 1) s
  | k + 1, _ :: s => validFrom k s

def validString (s : GoString) : Bool := validFrom 0 s

theorem validFrom_append {k : Nat} {s : GoString} (h : validFrom k s = true) (t : GoString) :
    validFrom k (s ++ t) = validFrom 0 t := by
  induction s generalizing k with
  | nil =>
    obtain rfl : k = 0 := of_decide_eq_true h
    rfl
  | cons b s ih =>
    cases k with
    | zero =>
      rw [validFrom] at h
      rw [List.cons_append, validFrom]
      cases hlen : validRuneLen? (b :: s) with
      | none =>
        rw [hlen] at h
        cases h
      | some n =>
        rw [hlen] at h
        have happend : validRuneLen? (b :: (s ++ t)) = some n := validRuneLen?_append hlen t
        rw [happend]
        exact ih h
    | succ k => exact ih h

/-- A character of one byte between two texts makes one text. -/
theorem validString_around {s t : GoString} {b : Byte} (hs : validString s = true) (hb : b < 0x80)
    (ht : validString t = true) : validString (s ++ b :: t) = true := by
  rw [validString, validFrom_append hs, validFrom, validRuneLen?, followers, if_pos hb]
  exact ht

example : runeLen [0xE3, 0x81, 0x82, 0x61] = 3 := by decide

end Go
