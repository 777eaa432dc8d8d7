import YcAgent.Base.Loop
import YcAgent.Base.Slice
import YcAgent.Base.Strings

/-!
# Cutting a cell of the result table

`format` cuts a text into pieces of a width, in a loop that computes what is left from the number
of the turn. The loop goes on for ever where the width is zero.
-/
namespace YcAgent.Agent.Printer

open Go

/-- `s[i:j]`, where that does not panic. -/
def slice? (s : GoString) (i j : ℤ) : Option GoString :=
  if 0 ≤ i ∧ i ≤ j ∧ j ≤ s.length then some (Slice.slice s i.toNat j.toNat) else none

/-- The variables of the loop of `format`. -/
structure Cutting where
  result : List GoString
  n : ℤ
  r : ℤ

/-- A turn of the loop; there is no result where it panics. -/
def cutTurn (width : ℤ) (s : GoString) (c : Cutting) : Option (List GoString) ⊕ Cutting :=
  if c.r > 0 then
    if c.r > width then
      match slice? s (width * c.n) (width * (c.n + 1)) with
      | none => .inl none
      | some piece =>
        let n := c.n + 1
        .inr ⟨c.result ++ [piece], n, s.length - width * n⟩
    else
      match slice? s (width * c.n) s.length with
      | none => .inl none
      | some piece => .inl (some (c.result ++ [piece]))
  else .inl (some c.result)

/-- `format`, with `[]` for nil; there is no result where it panics or takes more turns than
`fuel`. -/
def format (fuel : ℕ) (width : ℤ) (s : GoString) : Option (List GoString) :=
  let s := trimSpace s
  if s.length = 0 then some []
  else if s.length ≤ width then some []
  else
    match slice? s 0 width with
    | none => none
    | some piece =>
      let n := 1
      (Loop.run (cutTurn width s) fuel ⟨[piece], n, s.length - width * n⟩).join

/-- Pieces of the width, and one behind them that is no longer. -/
structure Cut (width : ℕ) (s : GoString) (pieces : List GoString) : Prop where
  whole : pieces.flatten = s
  several : 2 ≤ pieces.length
  full : ∀ piece ∈ pieces.dropLast, piece.length = width
  last : ∀ piece, pieces.getLast? = some piece → 1 ≤ piece.length ∧ piece.length ≤ width

theorem Cut.length_le {width : ℕ} {s : GoString} {pieces : List GoString} (h : Cut width s pieces)
    {piece : GoString} (hpiece : piece ∈ pieces) : piece.length ≤ width := by
  rcases List.eq_nil_or_concat' pieces with rfl | ⟨front, last, rfl⟩
  · cases hpiece
  · rcases List.mem_append.mp hpiece with hpiece | hpiece
    · have hfull := h.full piece (by rwa [List.dropLast_concat])
      omega
    · rw [List.mem_singleton.mp hpiece]
      exact (h.last last List.getLast?_concat).2

theorem slice?_eq {s : GoString} {i j : ℕ} (hij : i ≤ j) (hj : j ≤ s.length) :
    slice? s i j = some (Slice.slice s i j) := by
  rw [slice?, if_pos (by omega), Int.toNat_natCast, Int.toNat_natCast]

theorem length_slice {s : GoString} {i j : ℕ} (hj : j ≤ s.length) :
    (Slice.slice s i j).length = j - i := by
  rw [Slice.slice, List.length_drop, List.length_take, Nat.min_eq_left hj]

/-- The variables in front of the loop, where the text is too long. -/
def Cutting.start (width : ℤ) (s : GoString) : Cutting :=
  ⟨[Slice.slice s 0 width.toNat], 1, s.length - width * 1⟩

/-- The bounds of the slices that a turn takes lie in the text. No product of the loop is beyond
them, so none leaves 64 bits. -/
structure Inside (width : ℤ) (s : GoString) (c : Cutting) : Prop where
  low : 0 ≤ width * c.n
  high : width * c.n < s.length
  next : c.r > width → width * (c.n + 1) < s.length

/-! ## The turns of the loop -/

section Loop

variable {width k : ℕ} {s : GoString}

/-- A turn with more than a piece left. -/
theorem cutTurn_more (h : width * (k + 1) < s.length) (result : List GoString) :
    cutTurn width s ⟨result, k, s.length - width * k⟩ =
      .inr ⟨result ++ [Slice.slice s (width * k) (width * (k + 1))], k + 1,
        s.length - width * (k + 1)⟩ := by
  have hnext : width * (k + 1) = width * k + width := Nat.mul_succ width k
  have hslice : slice? s ((width : ℤ) * k) ((width : ℤ) * (k + 1)) =
      some (Slice.slice s (width * k) (width * (k + 1))) := by
    have hcut := slice?_eq (s := s) (i := width * k) (j := width * (k + 1)) (by omega) (by omega)
    push_cast at hcut
    exact hcut
  have hpos : (s.length : ℤ) - width * k > 0 := by omega
  have hmore : (s.length : ℤ) - width * k > width := by omega
  rw [cutTurn, if_pos hpos, if_pos hmore, hslice]

/-- The turn that ends the loop. -/
theorem cutTurn_last (hlt : width * k < s.length) (hle : s.length ≤ width * (k + 1))
    (result : List GoString) :
    cutTurn width s ⟨result, k, s.length - width * k⟩ =
      .inl (some (result ++ [Slice.slice s (width * k) s.length])) := by
  have hnext : width * (k + 1) = width * k + width := Nat.mul_succ width k
  have hslice : slice? s ((width : ℤ) * k) s.length =
      some (Slice.slice s (width * k) s.length) := by
    have hcut := slice?_eq (s := s) (i := width * k) (j := s.length) (by omega) (Nat.le_refl _)
    push_cast at hcut
    exact hcut
  have hpos : (s.length : ℤ) - width * k > 0 := by omega
  have hlast : ¬ (s.length : ℤ) - width * k > width := by omega
  rw [cutTurn, if_pos hpos, if_neg hlast, hslice]

/-- What has been cut off is the front of the text, in pieces of the width. -/
structure CutInv (width : ℕ) (s : GoString) (c : Cutting) : Prop where
  turns : ∃ k : ℕ, c.n = k ∧ 1 ≤ k ∧ c.r = s.length - width * k ∧ width * k < s.length ∧
    c.result.length = k ∧ c.result.flatten = s.take (width * k)
  full : ∀ piece ∈ c.result, piece.length = width

theorem CutInv.more {result : List GoString} (h : width * (k + 1) < s.length)
    (hresult : CutInv width s ⟨result, k, s.length - width * k⟩) :
    CutInv width s ⟨result ++ [Slice.slice s (width * k) (width * (k + 1))], k + 1,
      s.length - width * (k + 1)⟩ := by
  obtain ⟨⟨k', hn, -, -, -, hlength, hflatten⟩, hfull⟩ := hresult
  obtain rfl : k = k' := Int.natCast_inj.mp hn
  have hnext : width * (k + 1) = width * k + width := Nat.mul_succ width k
  refine ⟨⟨k + 1, by push_cast; rfl, by omega, by push_cast; rfl, h, ?_, ?_⟩, ?_⟩
  · rw [List.length_append, hlength, List.length_singleton]
  · rw [List.flatten_append, hflatten, List.flatten_singleton]
    have hgrows : width * k ≤ width * (k + 1) := by omega
    exact Slice.slice_append_slice s (Nat.zero_le (width * k)) hgrows
  · intro piece hpiece
    rcases List.mem_append.mp hpiece with hpiece | hpiece
    · exact hfull piece hpiece
    · rw [List.mem_singleton.mp hpiece, length_slice (by omega)]
      omega

/-- The rest is the last piece. -/
theorem CutInv.last {result : List GoString} (hlt : width * k < s.length)
    (hle : s.length ≤ width * (k + 1))
    (hresult : CutInv width s ⟨result, k, s.length - width * k⟩) :
    Cut width s (result ++ [Slice.slice s (width * k) s.length]) := by
  obtain ⟨⟨k', hn, hk, -, -, hlength, hflatten⟩, hfull⟩ := hresult
  obtain rfl : k = k' := Int.natCast_inj.mp hn
  have hnext : width * (k + 1) = width * k + width := Nat.mul_succ width k
  refine ⟨?_, ?_, ?_, ?_⟩
  · rw [List.flatten_append, hflatten, List.flatten_singleton]
    calc s.take (width * k) ++ Slice.slice s (width * k) s.length
        = Slice.slice s 0 s.length :=
          Slice.slice_append_slice s (Nat.zero_le (width * k)) (Nat.le_of_lt hlt)
      _ = s := List.take_length
  · rw [List.length_append, hlength, List.length_singleton]
    omega
  · rw [List.dropLast_concat]
    exact hfull
  · intro piece hpiece
    rw [List.getLast?_concat] at hpiece
    rw [← Option.some.inj hpiece, length_slice (Nat.le_refl _)]
    omega

theorem cutTurn_spec (hwidth : 1 ≤ width) {c : Cutting} (h : CutInv width s c) :
    (∃ r, cutTurn width s c = .inl r ∧ ∃ pieces, r = some pieces ∧ Cut width s pieces) ∨
      ∃ d, cutTurn width s c = .inr d ∧ CutInv width s d ∧ d.r.toNat < c.r.toNat := by
  obtain ⟨k, hn, -, hr, hlt, -⟩ := h.turns
  obtain ⟨result, n, r⟩ := c
  dsimp only at hn hr
  subst hn hr
  by_cases hmore : width * (k + 1) < s.length
  · have hnext : width * (k + 1) = width * k + width := Nat.mul_succ width k
    have hless : ((s.length : ℤ) - width * (k + 1)).toNat <
        ((s.length : ℤ) - width * k).toNat := by
      rw [Int.mul_add, Int.mul_one]
      omega
    exact Or.inr ⟨_, cutTurn_more hmore result, h.more hmore, hless⟩
  · have hlast : s.length ≤ width * (k + 1) := by omega
    exact Or.inl ⟨_, cutTurn_last hlt hlast result, _, rfl, h.last hlt hlast⟩

theorem cutInv_start (hlong : width < s.length) : CutInv width s (.start width s) := by
  refine ⟨⟨1, rfl, Nat.le_refl 1, by push_cast; rfl, by omega, rfl, ?_⟩, ?_⟩
  · rw [Cutting.start, List.flatten_singleton, Nat.mul_one]
    rfl
  · intro piece hpiece
    rw [List.mem_singleton.mp hpiece, Int.toNat_natCast, length_slice (by omega)]
    omega

theorem CutInv.inside {c : Cutting} (h : CutInv width s c) : Inside width s c := by
  obtain ⟨k, hn, -, hr, hlt, -⟩ := h.turns
  refine ⟨?_, ?_, ?_⟩
  · rw [hn]
    omega
  · rw [hn]
    omega
  · intro hmore
    rw [hr] at hmore
    rw [hn, Int.mul_add, Int.mul_one]
    omega

theorem inside_of_reaches (hwidth : 1 ≤ width) (hlong : width < s.length) {c : Cutting}
    (h : Loop.Reaches (cutTurn width s) (.start width s) c) : Inside width s c := by
  have hinv : CutInv width s c := by
    refine h.invariant (I := CutInv width s) ?_ (cutInv_start hlong)
    intro c d hc hturn
    rcases cutTurn_spec hwidth hc with ⟨r, hr, -⟩ | ⟨d', hd, hinv, -⟩
    · rw [hr] at hturn
      cases hturn
    · rw [hd] at hturn
      exact Sum.inr.inj hturn ▸ hinv
  exact hinv.inside

end Loop

/-! ## The pieces -/

theorem format_long {width : ℕ} {s : GoString} (hlong : width < (trimSpace s).length)
    (fuel : ℕ) :
    format fuel width s =
      (Loop.run (cutTurn width (trimSpace s)) fuel (.start width (trimSpace s))).join := by
  have hslice : slice? (trimSpace s) 0 width = some (Slice.slice (trimSpace s) 0 width) :=
    slice?_eq (Nat.zero_le width) (by omega)
  rw [format]
  dsimp only
  rw [if_neg (by omega), if_neg (by omega), hslice]
  rfl

/-- A text that is too long is cut, in as many turns as it has bytes. -/
theorem format_cut {width : ℕ} (hwidth : 1 ≤ width) {s : GoString}
    (hlong : width < (trimSpace s).length) :
    ∃ pieces, format (trimSpace s).length width s = some pieces ∧
      Cut width (trimSpace s) pieces := by
  obtain ⟨r, hrun, pieces, rfl, hcut⟩ :=
    Loop.run_of_variant (fun c : Cutting => c.r.toNat)
      (fun c hc => cutTurn_spec hwidth hc) (cutInv_start hlong)
  refine ⟨pieces, ?_, hcut⟩
  have hturns : ((trimSpace s).length - width * 1 : ℤ).toNat + 1 ≤ (trimSpace s).length := by
    omega
  rw [format_long hlong, Loop.run_stable hrun hturns]
  rfl

/-- A text that fits is not cut, and nothing of it comes out. -/
theorem format_short {width : ℕ} {s : GoString} (hshort : (trimSpace s).length ≤ width)
    (fuel : ℕ) : format fuel width s = some [] := by
  rw [format]
  dsimp only
  split
  · rfl
  · rw [if_pos (by omega)]

theorem format_stable {m n : ℕ} {width : ℤ} {s : GoString} {pieces : List GoString}
    (h : format m width s = some pieces) (hle : m ≤ n) : format n width s = some pieces := by
  unfold format at h ⊢
  dsimp only at h ⊢
  by_cases hnil : (trimSpace s).length = 0
  · rw [if_pos hnil] at h ⊢
    exact h
  · rw [if_neg hnil] at h ⊢
    by_cases hfit : ((trimSpace s).length : ℤ) ≤ width
    · rw [if_pos hfit] at h ⊢
      exact h
    · rw [if_neg hfit] at h ⊢
      cases hslice : slice? (trimSpace s) 0 width with
      | none =>
        rw [hslice] at h
        cases h
      | some piece =>
        rw [hslice] at h
        dsimp only at h ⊢
        rw [Loop.run_stable (Option.join_eq_some_iff.mp h) hle]
        rfl

theorem format_unique {m n : ℕ} {width : ℤ} {s : GoString} {ps qs : List GoString}
    (hp : format m width s = some ps) (hq : format n width s = some qs) : ps = qs := by
  rcases Nat.le_total m n with hle | hle
  · exact Option.some.inj ((format_stable hp hle).symm.trans hq)
  · exact Option.some.inj (hp.symm.trans (format_stable hq hle))

/-- A text that fits without its white space gives nothing and any other one all of its pieces,
in no more turns than it has bytes; whatever the turn, its slices lie in the text. -/
theorem format_lossless {width : ℤ} (hwidth : 1 ≤ width) (s : GoString) :
    (∃ pieces, (∀ fuel ≥ (trimSpace s).length, format fuel width s = some pieces) ∧
      ((trimSpace s).length ≤ width → pieces = []) ∧
      (width < (trimSpace s).length → Cut width.toNat (trimSpace s) pieces)) ∧
    (width < (trimSpace s).length → ∀ c,
      Loop.Reaches (cutTurn width (trimSpace s)) (.start width (trimSpace s)) c →
        Inside width (trimSpace s) c) := by
  obtain ⟨width, rfl⟩ := Int.eq_ofNat_of_zero_le (Int.le_trans Int.one_nonneg hwidth)
  have hpos : 1 ≤ width := by omega
  by_cases hlong : width < (trimSpace s).length
  · obtain ⟨pieces, hformat, hcut⟩ := format_cut hpos hlong
    refine ⟨⟨pieces, fun fuel hfuel => format_stable hformat hfuel, ?_, fun _ => hcut⟩, ?_⟩
    · intro hshort
      omega
    · intro _ c hc
      exact inside_of_reaches hpos hlong hc
  · refine ⟨⟨[], fun fuel _ => format_short (by omega) fuel, fun _ => rfl, ?_⟩, ?_⟩
    · intro hlonger
      omega
    · intro hlonger
      omega

/-- Four bytes are cut in pairs, with nothing behind the second. -/
theorem format_lossless_pairs :
    (∃ pieces, (∀ fuel ≥ 4, format fuel 2 (str " abcd ") = some pieces) ∧
      ((trimSpace (str " abcd ")).length ≤ (2 : ℤ) → pieces = []) ∧
      (2 < ((trimSpace (str " abcd ")).length : ℤ) →
        Cut (2 : ℤ).toNat (trimSpace (str " abcd ")) pieces)) ∧
    (2 < ((trimSpace (str " abcd ")).length : ℤ) → ∀ c,
      Loop.Reaches (cutTurn 2 (trimSpace (str " abcd "))) (.start 2 (trimSpace (str " abcd "))) c →
        Inside 2 (trimSpace (str " abcd ")) c) :=
  format_lossless (by decide) (str " abcd ")

example : format 4 2 (str " abcd ") = some [str "ab", str "cd"] := by decide

end YcAgent.Agent.Printer
