import YcAgent.Base.Loop
import YcAgent.Capture.AppLog

/-!
# The search for a place in a file

`PositionLastLines` goes through a file from its end, with a seek and a read of one byte for
every byte, and a cursor that counts from the end. What it comes to is the search over the bytes
alone, and it takes no more turns than there are bytes.
-/
namespace YcAgent.Capture.PositionLines

open Go

/-- `Seek` from the end of the file; the offset that it leads to. -/
def seekEnd (content : GoString) (cursor : Int) : Except GoString Nat :=
  if (content.length : Int) + cursor < 0 then .error (str "invalid argument")
  else .ok ((content.length : Int) + cursor).toNat

/-- `Read` of one byte, with the offset behind it. -/
def readByte (content : GoString) (offset : Nat) : Except GoString (Byte × Nat) :=
  match content[offset]? with
  | none => .error (str "EOF")
  | some char => .ok (char, offset + 1)

/-- The variables of the loop, and where the file stands. -/
structure Search where
  offset : Nat
  cursor : Int
  lines : UInt64

def start (n : UInt64) : Search := ⟨0, 0, n⟩

/-- A turn of the loop; a result is the offset of the file. -/
def turn (content : GoString) (s : Search) : Except GoString Nat ⊕ Search :=
  let cursor := s.cursor - 1
  match seekEnd content cursor with
  | .error err => .inl (.error err)
  | .ok offset =>
    match readByte content offset with
    | .error err => .inl (.error err)
    | .ok (char, offset) =>
      let lines := if char = newline then s.lines - 1 else s.lines
      if lines = 0 then .inl (.ok offset)
      else if cursor = -(content.length : Int) then .inl (.ok 0)
      else .inr ⟨offset, cursor, lines⟩

/-- Right behind the `n`-th newline from the end, or at the start of a file with fewer. -/
def BehindNewline (content : GoString) (n offset : Nat) : Prop :=
  (content.count newline < n ∧ offset = 0) ∨
    ∃ front rest, content = front ++ newline :: rest ∧ rest.count newline + 1 = n ∧
      offset = front.length + 1

section Search

variable {content : GoString}

/-- A turn looks at the byte in front of the cursor. -/
theorem turn_eq {c : Nat} (hc : c < content.length) (offset : Nat) (lines : UInt64) :
    turn content ⟨offset, (c + 1 : Nat) - (content.length : Int), lines⟩ =
      let lines := if content[c] = newline then lines - 1 else lines
      if lines = 0 then .inl (.ok (c + 1))
      else if c = 0 then .inl (.ok 0)
      else .inr ⟨c + 1, (c : Int) - content.length, lines⟩ := by
  have hcursor : ((c + 1 : Nat) : Int) - content.length - 1 = (c : Int) - content.length := by
    omega
  have hseek : seekEnd content ((c : Int) - content.length) = .ok c := by
    have htarget : (content.length : Int) + ((c : Int) - content.length) = c := by omega
    rw [seekEnd, htarget, if_neg (by omega), Int.toNat_natCast]
  have hread : readByte content c = .ok (content[c], c + 1) := by
    rw [readByte, List.getElem?_eq_getElem hc]
  have hend : (c : Int) - content.length = -(content.length : Int) ↔ c = 0 := by omega
  unfold turn
  simp only [hcursor, hseek, hread, hend]

/-- As many turns as there are bytes in front of the cursor. -/
theorem run_turn {c : Nat} (hpos : 0 < c) (hc : c ≤ content.length) (offset : Nat)
    (lines : UInt64) :
    Loop.run (turn content) c ⟨offset, (c : Int) - content.length, lines⟩ =
      some (positionLoop content lines c) := by
  induction c generalizing offset lines with
  | zero => exact absurd hpos (Nat.lt_irrefl 0)
  | succ c ih =>
    rw [Loop.run, turn_eq hc, positionLoop_succ hc]
    dsimp only
    generalize (if content[c] = newline then lines - 1 else lines) = lines'
    by_cases hzero : lines' = 0
    · rw [if_pos hzero, if_pos hzero]
    · rw [if_neg hzero, if_neg hzero]
      by_cases hstart : c = 0
      · rw [if_pos hstart, if_pos hstart]
      · rw [if_neg hstart, if_neg hstart]
        exact ih (Nat.pos_of_ne_zero hstart) (Nat.le_of_lt hc) (c + 1) lines'

/-- The search goes on only with a byte left in front of the cursor. -/
theorem cursor_of_reaches {s t : Search} (hs : 0 ≤ (content.length : Int) + (s.cursor - 1))
    (h : Loop.Reaches (turn content) s t) : 0 ≤ (content.length : Int) + (t.cursor - 1) := by
  refine h.invariant (I := fun s => 0 ≤ (content.length : Int) + (s.cursor - 1)) ?_ hs
  intro u v hu hturn
  unfold turn seekEnd at hturn
  dsimp only at hturn
  rw [if_neg (by omega)] at hturn
  dsimp only at hturn
  split at hturn
  · cases hturn
  · rename_i char offset hread
    generalize (if char = newline then u.lines - 1 else u.lines) = lines at hturn
    split at hturn
    · cases hturn
    · split at hturn
      · cases hturn
      · rename_i hne
        obtain rfl := Sum.inr.inj hturn
        show 0 ≤ (content.length : Int) + (u.cursor - 1 - 1)
        omega

theorem behindNewline_of_isPosition {n offset : Nat} (h : IsPosition content n offset)
    (hoffset : offset ≤ content.length) : BehindNewline content n offset := by
  rcases h with ⟨hzero, hcount⟩ | ⟨front, hfront, hcount⟩
  · exact Or.inl ⟨hcount, hzero⟩
  · refine Or.inr ⟨front, content.drop offset, hfront, hcount, ?_⟩
    have hlength := congrArg List.length hfront
    rw [List.length_append, List.length_cons, List.length_drop] at hlength
    omega

/-- The search ends without an error, within as many turns as there are bytes, where the `n`-th
newline from the end is; no turn seeks to a place before the start of the file. -/
theorem positionLastLines_returns (hcontent : content ≠ []) {n : UInt64} (hn : n ≠ 0) :
    (∃ offset, Loop.run (turn content) content.length (start n) = some (.ok offset) ∧
      BehindNewline content n.toNat offset) ∧
      ∀ s, Loop.Reaches (turn content) (start n) s →
        0 ≤ (content.length : Int) + (s.cursor - 1) := by
  have hpos := List.length_pos_of_ne_nil hcontent
  constructor
  · obtain ⟨offset, hoffset, hposition⟩ := positionLastLines_spec hcontent hn
    obtain ⟨offset', hoffset', hle⟩ := positionLoop_ok n hpos (Nat.le_refl content.length)
    obtain rfl : offset = offset' := Except.ok.inj (hoffset.symm.trans hoffset')
    refine ⟨offset, ?_, behindNewline_of_isPosition hposition hle⟩
    have hrun := run_turn hpos (Nat.le_refl content.length) 0 n
    rw [Int.sub_self] at hrun
    exact hrun.trans (congrArg some hoffset)
  · intro s hs
    refine cursor_of_reaches ?_ hs
    show 0 ≤ (content.length : Int) + (0 - 1)
    omega

end Search

/-- The first byte is the second newline from the end. -/
theorem positionLastLines_returns_first :
    (∃ offset, Loop.run (turn (str "\na\n")) 3 (start 2) = some (.ok offset) ∧
      BehindNewline (str "\na\n") (2 : UInt64).toNat offset) ∧
      ∀ s, Loop.Reaches (turn (str "\na\n")) (start 2) s →
        0 ≤ ((str "\na\n").length : Int) + (s.cursor - 1) :=
  positionLastLines_returns (by decide) (by decide)

end YcAgent.Capture.PositionLines
