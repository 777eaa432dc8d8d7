import Mathlib.Data.Nat.Notation
import YcAgent.Base.Lexicographic
import YcAgent.Base.Strconv

/-!
# Decimal text

`decimal` is the text of a natural number. It is never empty, holds digits only, and
grows by one digit at the end when the number grows tenfold; every text of digits
without a leading zero is the text of a number.
-/
namespace Go

def decimal (n : ℕ) : GoString := str (toString n)

def IsDigit (b : Byte) : Prop := 48 ≤ b ∧ b ≤ 57

instance : DecidablePred IsDigit := fun b => inferInstanceAs (Decidable (48 ≤ b ∧ b ≤ 57))

/-- The digit of a number below ten. -/
def digitByte (d : ℕ) : Byte := UInt8.ofNat (48 + d)

theorem str_append (s t : String) : str (s ++ t) = str s ++ str t := by
  simp [str]

theorem str_digitChar {d : ℕ} (hd : d < 10) :
    str (String.singleton d.digitChar) = [digitByte d] := by
  have hall : ∀ e ∈ List.range 10,
      str (String.singleton e.digitChar) = [digitByte e] := by decide
  exact hall d (List.mem_range.mpr hd)

theorem decimal_of_lt {d : ℕ} (hd : d < 10) : decimal d = [digitByte d] := by
  rw [decimal, Nat.toString_eq_repr, Nat.repr_of_lt hd, str_digitChar hd]

theorem decimal_of_ge {n : ℕ} (hn : 10 ≤ n) :
    decimal n = decimal (n / 10) ++ [digitByte (n % 10)] := by
  rw [decimal, Nat.toString_eq_repr, Nat.repr_of_ge hn, str_append,
    str_digitChar (Nat.mod_lt n (by omega))]
  rfl

/-- One more digit at the end. -/
theorem decimal_snoc {n d : ℕ} (hn : 0 < n) (hd : d < 10) :
    decimal (10 * n + d) = decimal n ++ [digitByte d] := by
  rw [decimal_of_ge (by omega)]
  have hdiv : (10 * n + d) / 10 = n := by omega
  have hmod : (10 * n + d) % 10 = d := by omega
  rw [hdiv, hmod]

/-- A number is a digit, or a smaller positive number followed by a digit. -/
theorem decimal_induction {P : ℕ → Prop} (single : ∀ d < 10, P d)
    (snoc : ∀ n d, 0 < n → d < 10 → P n → P (10 * n + d)) (n : ℕ) : P n := by
  induction n using Nat.strongRecOn with
  | _ n ih =>
    by_cases hn : n < 10
    · exact single n hn
    · have hsplit : 10 * (n / 10) + n % 10 = n := Nat.div_add_mod n 10
      rw [← hsplit]
      exact snoc _ _ (by omega) (by omega) (ih _ (by omega))

theorem isDigit_digitByte {d : ℕ} (hd : d < 10) : IsDigit (digitByte d) := by
  have hall : ∀ e ∈ List.range 10, IsDigit (digitByte e) := by decide
  exact hall d (List.mem_range.mpr hd)

theorem isDigit_of_mem_decimal {n : ℕ} : ∀ b ∈ decimal n, IsDigit b := by
  induction n using decimal_induction with
  | single d hd =>
    intro b hb
    rw [decimal_of_lt hd, List.mem_singleton] at hb
    exact hb ▸ isDigit_digitByte hd
  | snoc n d hn hd ih =>
    intro b hb
    rw [decimal_snoc hn hd, List.mem_append, List.mem_singleton] at hb
    rcases hb with hb | rfl
    · exact ih b hb
    · exact isDigit_digitByte hd

theorem decimal_ne_nil (n : ℕ) : decimal n ≠ [] := by
  induction n using decimal_induction with
  | single d hd =>
    rw [decimal_of_lt hd]
    exact List.cons_ne_nil _ _
  | snoc n d hn hd ih =>
    rw [decimal_snoc hn hd]
    exact List.append_ne_nil_of_left_ne_nil ih _

theorem length_decimal_le {k n : ℕ} (hk : 0 < k) (hn : n < 10 ^ k) : (decimal n).length ≤ k := by
  induction k generalizing n with
  | zero => omega
  | succ k ih =>
    by_cases hsmall : n < 10
    · rw [decimal_of_lt hsmall, List.length_singleton]
      omega
    · have hpos : 0 < k := by
        rcases Nat.eq_zero_or_pos k with rfl | hpos
        · omega
        · exact hpos
      have hrest : n / 10 < 10 ^ k := by
        rw [Nat.div_lt_iff_lt_mul (by decide)]
        rwa [Nat.pow_succ] at hn
      rw [decimal_of_ge (by omega), List.length_append, List.length_singleton]
      exact Nat.succ_le_succ (ih hpos hrest)

/-- The value of a text of digits. -/
def digitsValue (ds : GoString) : ℕ := ds.foldl (fun acc b => 10 * acc + (b.toNat - 48)) 0

theorem digitsValue_snoc (ds : GoString) (b : Byte) :
    digitsValue (ds ++ [b]) = 10 * digitsValue ds + (b.toNat - 48) := by
  rw [digitsValue, List.foldl_append]
  rfl

theorem toNat_digitByte {d : ℕ} (hd : d < 10) : (digitByte d).toNat - 48 = d := by
  have hall : ∀ e ∈ List.range 10, (digitByte e).toNat - 48 = e := by decide
  exact hall d (List.mem_range.mpr hd)

theorem digitByte_toNat {b : Byte} (hb : IsDigit b) : digitByte (b.toNat - 48) = b := by
  obtain ⟨hlo, hhi⟩ := hb
  rw [UInt8.le_iff_toNat_le] at hlo hhi
  have hlo' : 48 ≤ b.toNat := hlo
  apply UInt8.toNat_inj.mp
  rw [digitByte, UInt8.toNat_ofNat']
  have := b.toNat_lt
  omega

theorem digitsValue_decimal (n : ℕ) : digitsValue (decimal n) = n := by
  induction n using decimal_induction with
  | single d hd =>
    rw [decimal_of_lt hd]
    show 10 * 0 + ((digitByte d).toNat - 48) = d
    rw [toNat_digitByte hd]
    omega
  | snoc n d hn hd ih => rw [decimal_snoc hn hd, digitsValue_snoc, ih, toNat_digitByte hd]

theorem decimal_injective : Function.Injective decimal := by
  intro m n h
  rw [← digitsValue_decimal m, h, digitsValue_decimal]

/-- A text of digits that does not begin with a zero is the text of its value. -/
theorem decimal_digitsValue {b : Byte} {ds : GoString} (hb : IsDigit b) (h0 : b ≠ 48)
    (hds : ∀ c ∈ ds, IsDigit c) :
    0 < digitsValue (b :: ds) ∧ decimal (digitsValue (b :: ds)) = b :: ds := by
  induction ds using List.reverseRecOn with
  | nil =>
    have hval : digitsValue [b] = b.toNat - 48 := by
      show 10 * 0 + (b.toNat - 48) = _
      omega
    have hne : b.toNat ≠ 48 := fun h => h0 (UInt8.toNat_inj.mp h)
    obtain ⟨hlo, hhi⟩ := hb
    rw [UInt8.le_iff_toNat_le] at hlo hhi
    have hlo' : 48 ≤ b.toNat := hlo
    have hhi' : b.toNat ≤ 57 := hhi
    rw [hval, decimal_of_lt (by omega), digitByte_toNat ⟨hlo, hhi⟩]
    exact ⟨by omega, rfl⟩
  | append_singleton ds c ih =>
    obtain ⟨hpos, htext⟩ := ih fun d hd => hds d (List.mem_append_left _ hd)
    have hc : IsDigit c := hds c (by simp)
    have hlt : c.toNat - 48 < 10 := by
      have hhi : c.toNat ≤ 57 := UInt8.le_iff_toNat_le.mp hc.2
      omega
    rw [← List.cons_append, digitsValue_snoc, decimal_snoc hpos hlt, htext, digitByte_toNat hc]
    exact ⟨by omega, rfl⟩

/-! ## `Atoi` -/

theorem digits?_eq_digitsValue {ds : GoString} (hds : ∀ b ∈ ds, IsDigit b) :
    digits? ds = some (digitsValue ds) := by
  have hall : ∀ acc : ℕ, ds.foldlM (fun acc b => (digit? b).map (acc * 10 + ·)) acc =
      some (ds.foldl (fun acc b => 10 * acc + (b.toNat - 48)) acc) := by
    induction ds with
    | nil => exact fun acc => rfl
    | cons b ds ih =>
      obtain ⟨hb, hrest⟩ := List.forall_mem_cons.mp hds
      intro acc
      have hdigit : digit? b = some (b.toNat - 48) := if_pos hb
      rw [List.foldlM_cons, List.foldl_cons, hdigit, Option.map_some, Nat.mul_comm acc]
      exact ih hrest _
  exact hall 0

/-- Digits are read as their value unless it does not fit. -/
theorem atoi_of_digits {ds : GoString} (hne : ds ≠ []) (hds : ∀ b ∈ ds, IsDigit b) :
    atoi ds = if InInt64 (digitsValue ds) then some (digitsValue ds : ℤ) else none := by
  have hsign : signAndDigits ds = (false, ds) := by
    unfold signAndDigits
    split
    · exact absurd (hds 45 List.mem_cons_self) (by decide)
    · exact absurd (hds 43 List.mem_cons_self) (by decide)
    · rfl
  have hvalue : (if false = true then -(digitsValue ds : ℤ) else digitsValue ds) =
      digitsValue ds := if_neg (by decide)
  unfold atoi
  rw [hsign]
  simp only
  rw [if_neg hne, digits?_eq_digitsValue hds, Option.bind_eq_bind, Option.bind_some, hvalue]

theorem inInt64_of_atoi {s : GoString} {v : ℤ} (h : atoi s = some v) : InInt64 v := by
  unfold atoi at h
  generalize signAndDigits s = signed at h
  obtain ⟨neg, ds⟩ := signed
  simp only at h
  by_cases hnil : ds = []
  · rw [if_pos hnil] at h
    cases h
  · rw [if_neg hnil] at h
    obtain ⟨n, -, hn⟩ := Option.bind_eq_some_iff.mp h
    generalize (if neg = true then -(n : ℤ) else n) = m at hn
    by_cases hin : InInt64 m
    · rw [if_pos hin] at hn
      exact Option.some.inj hn ▸ hin
    · rw [if_neg hin] at hn
      cases hn

/-! ## Fixed width -/

/-- The last `k` digits of a number, zeros in front of a small one. -/
def padded : ℕ → ℕ → GoString
  | 0, _ => []
  | k + 1, n => padded k (n / 10) ++ [digitByte (n % 10)]

@[simp] theorem length_padded (k n : ℕ) : (padded k n).length = k := by
  induction k generalizing n with
  | zero => rfl
  | succ k ih => rw [padded, List.length_append, ih, List.length_singleton]

theorem isDigit_of_mem_padded {k n : ℕ} : ∀ b ∈ padded k n, IsDigit b := by
  induction k generalizing n with
  | zero => exact fun b hb => absurd hb List.not_mem_nil
  | succ k ih =>
    intro b hb
    rw [padded, List.mem_append, List.mem_singleton] at hb
    rcases hb with hb | rfl
    · exact ih b hb
    · exact isDigit_digitByte (Nat.mod_lt n (by omega))

theorem digitByte_lt {d e : ℕ} (hde : d < e) (he : e < 10) : digitByte d < digitByte e := by
  rw [UInt8.lt_iff_toNat_lt, digitByte, digitByte, UInt8.toNat_ofNat', UInt8.toNat_ofNat']
  omega

/-- Texts of one width are ordered as their numbers. -/
theorem padded_lt {k m n : ℕ} (hmn : m < n) (hn : n < 10 ^ k) : padded k m < padded k n := by
  induction k generalizing m n with
  | zero =>
    rw [Nat.pow_zero] at hn
    omega
  | succ k ih =>
    rw [Nat.pow_succ] at hn
    have hlow : n % 10 < 10 := Nat.mod_lt n (by omega)
    rw [padded, padded]
    by_cases hdiv : m / 10 = n / 10
    · rw [hdiv]
      refine Lexicographic.append_lt_append_left _ (List.cons_lt_cons_iff.mpr (Or.inl ?_))
      exact digitByte_lt (by omega) hlow
    · have hlen : (padded k (m / 10)).length = (padded k (n / 10)).length := by
        rw [length_padded, length_padded]
      exact Lexicographic.append_lt_append hlen (ih (by omega) (by omega)) _ _

/-! ## `Itoa` -/

theorem itoa_eq (n : ℤ) :
    itoa n = if 0 ≤ n then decimal n.toNat else 45 :: decimal (-n).toNat := by
  rw [itoa, Int.toString_eq_repr, Int.repr_eq_if]
  split
  · rfl
  · rw [str_append]
    rfl

theorem itoa_of_nonneg {n : ℤ} (hn : 0 ≤ n) : itoa n = decimal n.toNat := by
  rw [itoa_eq, if_pos hn]

theorem itoa_of_neg {n : ℤ} (hn : n < 0) : itoa n = 45 :: decimal (-n).toNat := by
  rw [itoa_eq, if_neg (by omega)]

theorem itoa_bytes {n : ℤ} : ∀ b ∈ itoa n, IsDigit b ∨ b = 45 := by
  intro b hb
  rcases Int.lt_or_le n 0 with hn | hn
  · rw [itoa_of_neg hn] at hb
    rcases List.mem_cons.mp hb with rfl | hb
    · exact Or.inr rfl
    · exact Or.inl (isDigit_of_mem_decimal b hb)
  · rw [itoa_of_nonneg hn] at hb
    exact Or.inl (isDigit_of_mem_decimal b hb)

theorem not_mem_itoa {b : Byte} (hdigit : ¬ IsDigit b) (hminus : b ≠ 45) (n : ℤ) :
    b ∉ itoa n :=
  fun hb => (itoa_bytes b hb).elim hdigit hminus

theorem isGraphic_of_isDigit {b : Byte} (hb : IsDigit b) : IsGraphic b := by
  have hlo := UInt8.le_iff_toNat_le.mp hb.1
  have hhi := UInt8.le_iff_toNat_le.mp hb.2
  refine ⟨UInt8.le_iff_toNat_le.mpr ?_, UInt8.le_iff_toNat_le.mpr ?_⟩
  · exact Nat.le_trans (by decide) hlo
  · exact Nat.le_trans hhi (by decide)

theorem isGraphic_of_mem_itoa {n : ℤ} {b : Byte} (hb : b ∈ itoa n) : IsGraphic b := by
  rcases itoa_bytes b hb with hdigit | rfl
  · exact isGraphic_of_isDigit hdigit
  · decide

theorem itoa_ne_nil (n : ℤ) : itoa n ≠ [] := by
  rcases Int.lt_or_le n 0 with hn | hn
  · rw [itoa_of_neg hn]
    exact List.cons_ne_nil _ _
  · rw [itoa_of_nonneg hn]
    exact decimal_ne_nil _

theorem minus_not_mem_decimal (n : ℕ) : (45 : Byte) ∉ decimal n := by
  intro h
  exact absurd (isDigit_of_mem_decimal 45 h) (by decide)

theorem itoa_injective : Function.Injective itoa := by
  intro m n h
  rcases Int.lt_or_le m 0 with hm | hm <;> rcases Int.lt_or_le n 0 with hn | hn
  · rw [itoa_of_neg hm, itoa_of_neg hn] at h
    have := decimal_injective (List.cons_injective h)
    omega
  · rw [itoa_of_neg hm, itoa_of_nonneg hn] at h
    exact absurd (h ▸ List.mem_cons_self) (minus_not_mem_decimal _)
  · rw [itoa_of_nonneg hm, itoa_of_neg hn] at h
    exact absurd (h ▸ List.mem_cons_self) (minus_not_mem_decimal _)
  · rw [itoa_of_nonneg hm, itoa_of_nonneg hn] at h
    have := decimal_injective h
    omega

end Go
