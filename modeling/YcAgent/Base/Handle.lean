import Mathlib.Data.List.Basic

/-!
# An open file with its offset

A write goes to the offset and moves it. Behind the end it leaves a gap of zeros, before the
end it takes the place of what is there and leaves the rest. A truncated file keeps the offset.
-/
namespace Go

structure Handle (α : Type*) where
  content : List α
  offset : Nat

namespace Handle

variable {α : Type*}

def create : Handle α := ⟨[], 0⟩

/-- `Write`; nothing is written behind the end where there is nothing to write. -/
def write [Zero α] (f : Handle α) (data : List α) : Handle α :=
  if data = [] then f
  else
    { content := f.content.take f.offset ++ List.replicate (f.offset - f.content.length) 0 ++
        data ++ f.content.drop (f.offset + data.length)
      offset := f.offset + data.length }

/-- `Seek(0, io.SeekStart)`. -/
def seekStart (f : Handle α) : Handle α := { f with offset := 0 }

/-- `Truncate(0)`. -/
def truncate (f : Handle α) : Handle α := { f with content := [] }

/-- Reads on, up to so many letters. -/
def read (f : Handle α) (n : Nat) : List α × Handle α :=
  let data := (f.content.drop f.offset).take n
  (data, { f with offset := f.offset + data.length })

/-- `io.ReadAll`. -/
def readAll (f : Handle α) : List α × Handle α := f.read f.content.length

/-- The next write makes the file longer. -/
def AtEnd (f : Handle α) : Prop := f.offset = f.content.length

@[simp] theorem seekStart_truncate (f : Handle α) : f.truncate.seekStart = create := rfl

theorem atEnd_create : (create : Handle α).AtEnd := rfl

variable [Zero α]

theorem content_write {f : Handle α} (hle : f.offset ≤ f.content.length) (data : List α) :
    (f.write data).content =
      f.content.take f.offset ++ data ++ f.content.drop (f.offset + data.length) := by
  unfold write
  split
  · rename_i hdata
    rw [hdata, List.append_nil, List.length_nil, Nat.add_zero, List.take_append_drop]
  · rw [Nat.sub_eq_zero_of_le hle, List.replicate_zero, List.append_nil]

theorem offset_write (f : Handle α) (data : List α) :
    (f.write data).offset = f.offset + data.length := by
  unfold write
  split
  · rename_i hdata
    rw [hdata, List.length_nil, Nat.add_zero]
  · rfl

/-- Two writes are one write of both texts. -/
theorem content_write_write {f : Handle α} (hle : f.offset ≤ f.content.length)
    (first second : List α) :
    ((f.write first).write second).content = (f.write (first ++ second)).content := by
  have hfront : (f.content.take f.offset ++ first).length = f.offset + first.length := by
    rw [List.length_append, List.length_take, Nat.min_eq_left hle]
  have hoffset : (f.write first).offset = f.offset + first.length := offset_write f first
  have hinside : (f.write first).offset ≤ (f.write first).content.length := by
    rw [hoffset, content_write hle, List.length_append, hfront]
    exact Nat.le_add_right _ _
  have htake : (f.write first).content.take (f.offset + first.length) =
      f.content.take f.offset ++ first := by
    rw [content_write hle, List.take_left' hfront]
  have hdrop : (f.write first).content.drop (f.offset + first.length + second.length) =
      f.content.drop (f.offset + (first ++ second).length) := by
    rw [content_write hle, ← List.drop_drop, List.drop_left' hfront, List.drop_drop,
      List.length_append, Nat.add_assoc]
  rw [content_write hinside, hoffset, htake, hdrop, content_write hle, List.append_assoc,
    List.append_assoc, List.append_assoc, List.append_assoc]

theorem AtEnd.content_write {f : Handle α} (hend : f.AtEnd) (data : List α) :
    (f.write data).content = f.content ++ data := by
  have hdrop : f.content.drop (f.offset + data.length) = [] :=
    List.drop_eq_nil_of_le (by rw [hend]; exact Nat.le_add_right _ _)
  rw [Handle.content_write (Nat.le_of_eq hend), hdrop, List.append_nil, hend, List.take_length]

theorem AtEnd.write {f : Handle α} (hend : f.AtEnd) (data : List α) : (f.write data).AtEnd := by
  show (f.write data).offset = (f.write data).content.length
  rw [offset_write, hend.content_write, List.length_append, hend]

/-- A write at the start leaves what is behind it. -/
theorem content_write_seekStart (f : Handle α) (data : List α) :
    (f.seekStart.write data).content = data ++ f.content.drop data.length := by
  rw [content_write (Nat.zero_le _)]
  show f.content.take 0 ++ data ++ f.content.drop (0 + data.length) = _
  rw [List.take_zero, List.nil_append, Nat.zero_add]

theorem content_write_create (data : List α) : (create.write data).content = data :=
  atEnd_create.content_write data

/-- A write from some offset in the file leaves the new text alone only if it is at the start
and covers what was there. -/
theorem content_write_eq_iff {f : Handle α} (hle : f.offset ≤ f.content.length) (data : List α) :
    (f.write data).content = data ↔ f.offset = 0 ∧ f.content.length ≤ data.length := by
  rw [content_write hle]
  constructor
  · intro h
    have hlen := congrArg List.length h
    rw [List.length_append, List.length_append, List.length_take, List.length_drop] at hlen
    omega
  · intro h
    obtain ⟨hoffset, hcover⟩ := h
    rw [hoffset, List.take_zero, List.nil_append, Nat.zero_add, List.drop_eq_nil_of_le hcover,
      List.append_nil]

end Handle

end Go
