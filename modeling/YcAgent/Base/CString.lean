import Mathlib.Data.List.TakeWhile
import YcAgent.Base.Decimal

/-!
# Text as the C library reads and writes it

Memory is a list of bytes, and a string in it ends before the first NUL. `int` has 32
bits and `long` has 64.
-/
namespace CString

open Go

def nul : Byte := 0

/-- The string at the start of some memory. -/
def string (mem : GoString) : GoString := mem.takeWhile (· ≠ nul)

theorem nul_not_mem_string (mem : GoString) : nul ∉ string mem := by
  intro h
  have := List.mem_takeWhile_imp h
  simp at this

theorem string_append_nul {s : GoString} (hs : nul ∉ s) (rest : GoString) :
    string (s ++ nul :: rest) = s := by
  induction s with
  | nil => simp [string]
  | cons b s ih =>
    have hb : b ≠ nul := (List.ne_of_not_mem_cons hs).symm
    rw [string, List.cons_append, List.takeWhile_cons_of_pos (by simpa using hb)]
    exact congrArg (b :: ·) (ih (List.not_mem_of_not_mem_cons hs))

theorem string_of_not_mem {s : GoString} (hs : nul ∉ s) : string s = s := by
  refine List.takeWhile_eq_self_iff.mpr fun b hb => ?_
  exact decide_eq_true fun h => hs (h ▸ hb)

/-- What stands before the first place of a byte, and what behind it. -/
theorem append_cons_unique {b : Byte} {s t s' t' : GoString} (hs : b ∉ s) (hs' : b ∉ s')
    (h : s ++ b :: t = s' ++ b :: t') : s = s' ∧ t = t' := by
  rcases List.append_eq_append_iff.mp h with ⟨d, rfl, hd⟩ | ⟨d, rfl, hd⟩
  · cases d with
    | nil => exact ⟨(List.append_nil s).symm, (List.cons.inj hd).2⟩
    | cons c d =>
      obtain rfl := (List.cons.inj hd).1
      exact absurd (List.mem_append_right s List.mem_cons_self) hs'
  · cases d with
    | nil => exact ⟨List.append_nil s', (List.cons.inj hd).2.symm⟩
    | cons c d =>
      obtain rfl := (List.cons.inj hd).1
      exact absurd (List.mem_append_right s' List.mem_cons_self) hs

/-- `strchr`, of a byte other than NUL. -/
def strchr (mem : GoString) (b : Byte) : Option GoString :=
  match (string mem).dropWhile (· ≠ b) with
  | [] => none
  | c :: rest => some (c :: rest)

/-- `strrchr`, of a byte other than NUL. -/
def strrchr (mem : GoString) (b : Byte) : Option GoString :=
  if b ∈ string mem then some (b :: ((string mem).reverse.takeWhile (· ≠ b)).reverse) else none

theorem string_append {s : GoString} (hs : nul ∉ s) (t : GoString) :
    string (s ++ t) = s ++ string t := by
  refine List.takeWhile_append_of_pos fun b hb => ?_
  exact decide_eq_true fun h => hs (h ▸ hb)

theorem strchr_append {b : Byte} {u : GoString} (hb : b ≠ nul) (hnul : nul ∉ u) (hu : b ∉ u)
    (t : GoString) : strchr (u ++ b :: t) b = some (b :: string t) := by
  have hcons : string (b :: t) = b :: string t :=
    List.takeWhile_cons_of_pos (by simpa using hb)
  have hdrop : (u ++ b :: string t).dropWhile (· ≠ b) = b :: string t := by
    have hne : ∀ c ∈ u, decide (c ≠ b) = true := fun c hc =>
      decide_eq_true (ne_of_mem_of_not_mem hc hu)
    rw [List.dropWhile_append_of_pos hne]
    exact List.dropWhile_cons_of_neg (by simp)
  rw [strchr, string_append hnul, hcons, hdrop]

theorem strrchr_append {b : Byte} {u t : GoString} (hb : b ≠ nul) (hnul : nul ∉ u ++ t)
    (ht : b ∉ t) : strrchr (u ++ b :: t) b = some (b :: t) := by
  have hall : nul ∉ u ++ b :: t := by
    intro h
    rcases List.mem_append.mp h with h | h
    · exact hnul (List.mem_append_left t h)
    · rcases List.mem_cons.mp h with h | h
      · exact hb h.symm
      · exact hnul (List.mem_append_right u h)
  have htake : ((u ++ b :: t).reverse).takeWhile (· ≠ b) = t.reverse := by
    have hne : ∀ c ∈ t.reverse, decide (c ≠ b) = true := fun c hc =>
      decide_eq_true (ne_of_mem_of_not_mem (List.mem_reverse.mp hc) ht)
    rw [List.reverse_append, List.reverse_cons, List.append_assoc,
      List.takeWhile_append_of_pos hne, List.singleton_append, List.takeWhile_cons_of_neg (by simp),
      List.append_nil]
  rw [strrchr, string_of_not_mem hall, if_pos (by simp), htake, List.reverse_reverse]

/-- The argument `i` of a program, empty behind the last. -/
def argument (argv : List GoString) (i : ℕ) : GoString :=
  if i < argv.length then string (argv.getD i []) else []

theorem nul_not_mem_argument (argv : List GoString) (i : ℕ) : nul ∉ argument argv i := by
  unfold argument
  split
  · exact nul_not_mem_string _
  · exact List.not_mem_nil

/-! ## `atoi` -/

def isSpace (b : Byte) : Bool := b == 32 || (9 ≤ b && b ≤ 13)

def leadingDigits (s : GoString) : GoString := s.takeWhile fun b => decide (IsDigit b)

/-- The number at the start of a string, where the rest does not matter: no digit is zero. -/
def leadingInt (s : GoString) : ℤ :=
  let (neg, ds) := signAndDigits (s.dropWhile isSpace)
  if neg then -digitsValue (leadingDigits ds) else digitsValue (leadingDigits ds)

/-- `strtol` with base ten: a number that does not fit is the nearest one that does. -/
def strtol (s : GoString) : ℤ := max (-2 ^ 63) (min (2 ^ 63 - 1) (leadingInt s))

/-- `atoi`, which is `strtol` cut to an `int`. -/
def atoi (s : GoString) : ℤ := (strtol s).bmod (2 ^ 32)

def InInt32 (v : ℤ) : Prop := -2 ^ 31 ≤ v ∧ v < 2 ^ 31

instance (v : ℤ) : Decidable (InInt32 v) := inferInstanceAs (Decidable (_ ∧ _))

theorem atoi_of_leadingInt {s : GoString} {v : ℤ} (h : leadingInt s = v) (hv : InInt32 v) :
    atoi s = v := by
  obtain ⟨hlo, hhi⟩ := hv
  have hlong : strtol s = v := by
    rw [strtol, h]
    omega
  rw [atoi, hlong]
  exact Int.bmod_eq_of_le (by omega) (by omega)

theorem isSpace_eq_false_of_isDigit {b : Byte} (hb : IsDigit b) : isSpace b = false := by
  have hlo : 48 ≤ b.toNat := UInt8.le_iff_toNat_le.mp hb.1
  simp only [isSpace, Bool.or_eq_false_iff, beq_eq_false_iff_ne, Bool.and_eq_false_iff,
    decide_eq_false_iff_not, UInt8.le_iff_toNat_le]
  refine ⟨?_, Or.inr ?_⟩
  · rintro rfl
    exact absurd hlo (by decide)
  · have : (13 : Byte).toNat = 13 := rfl
    omega

theorem signAndDigits_of_ne {b : Byte} (hminus : b ≠ 45) (hplus : b ≠ 43) (s : GoString) :
    signAndDigits (b :: s) = (false, b :: s) := by
  unfold signAndDigits
  split
  · rename_i h
    exact absurd (List.cons.inj h).1 hminus
  · rename_i h
    exact absurd (List.cons.inj h).1 hplus
  · rfl

theorem signAndDigits_append (b : Byte) (s t : GoString) :
    signAndDigits (b :: (s ++ t)) =
      ((signAndDigits (b :: s)).1, (signAndDigits (b :: s)).2 ++ t) := by
  by_cases hminus : b = 45
  · subst hminus
    rfl
  · by_cases hplus : b = 43
    · subst hplus
      rfl
    · rw [signAndDigits_of_ne hminus hplus, signAndDigits_of_ne hminus hplus]
      rfl

theorem leadingDigits_append {ds rest : GoString} (hds : ∀ b ∈ ds, IsDigit b)
    (hrest : ∀ b ∈ rest.head?, ¬ IsDigit b) : leadingDigits (ds ++ rest) = ds := by
  induction ds with
  | nil =>
    cases rest with
    | nil => rfl
    | cons b rest =>
      exact List.takeWhile_cons_of_neg (by simpa using hrest b rfl)
  | cons b ds ih =>
    obtain ⟨hb, hds⟩ := List.forall_mem_cons.mp hds
    rw [List.cons_append, leadingDigits, List.takeWhile_cons_of_pos (by simpa using hb)]
    exact congrArg (b :: ·) (ih hds)

theorem leadingInt_digits {ds rest : GoString} (hne : ds ≠ []) (hds : ∀ b ∈ ds, IsDigit b)
    (hrest : ∀ b ∈ rest.head?, ¬ IsDigit b) : leadingInt (ds ++ rest) = digitsValue ds := by
  cases ds with
  | nil => exact absurd rfl hne
  | cons b ds =>
    have hb : IsDigit b := hds b List.mem_cons_self
    have hdrop : ((b :: ds) ++ rest).dropWhile isSpace = (b :: ds) ++ rest := by
      rw [List.cons_append, List.dropWhile_cons_of_neg (by
        rw [isSpace_eq_false_of_isDigit hb]
        exact Bool.false_ne_true)]
    have hsign : signAndDigits ((b :: ds) ++ rest) = (false, (b :: ds) ++ rest) := by
      refine signAndDigits_of_ne ?_ ?_ _
      · rintro rfl
        exact absurd hb (by decide)
      · rintro rfl
        exact absurd hb (by decide)
    rw [leadingInt, hdrop, hsign]
    simp only [Bool.false_eq_true, if_false]
    rw [leadingDigits_append hds hrest]

theorem leadingInt_minus {ds rest : GoString} (hds : ∀ b ∈ ds, IsDigit b)
    (hrest : ∀ b ∈ rest.head?, ¬ IsDigit b) : leadingInt (45 :: ds ++ rest) = -digitsValue ds := by
  have hdrop : (45 :: ds ++ rest).dropWhile isSpace = 45 :: (ds ++ rest) :=
    List.dropWhile_cons_of_neg (by decide)
  rw [leadingInt, hdrop]
  simp only [signAndDigits, if_true]
  rw [leadingDigits_append hds hrest]

/-- What `Itoa` writes is read back, whatever follows that is not a digit. -/
theorem atoi_itoa {c : ℤ} (hc : InInt32 c) {rest : GoString}
    (hrest : ∀ b ∈ rest.head?, ¬ IsDigit b) : atoi (itoa c ++ rest) = c := by
  refine atoi_of_leadingInt ?_ hc
  rcases Int.lt_or_le c 0 with hneg | hpos
  · rw [itoa_of_neg hneg, leadingInt_minus (fun b hb => isDigit_of_mem_decimal b hb) hrest,
      digitsValue_decimal]
    omega
  · rw [itoa_of_nonneg hpos, leadingInt_digits (decimal_ne_nil _)
      (fun b hb => isDigit_of_mem_decimal b hb) hrest, digitsValue_decimal]
    omega

theorem length_itoa_le {c : ℤ} (hc : InInt32 c) : (itoa c).length ≤ 11 := by
  obtain ⟨hlow, hhigh⟩ := hc
  rcases Int.lt_or_le c 0 with hneg | hpos
  · have hdigits : (decimal (-c).toNat).length ≤ 10 := length_decimal_le (by decide) (by omega)
    rw [itoa_of_neg hneg, List.length_cons]
    omega
  · have hdigits : (decimal c.toNat).length ≤ 10 := length_decimal_le (by decide) (by omega)
    rw [itoa_of_nonneg hpos]
    omega

/-- The text of a number begins with its sign or with a digit. -/
theorem head_itoa (c : ℤ) : ∃ b t, itoa c = b :: t ∧ (b = 45 ∨ IsDigit b) := by
  rcases Int.lt_or_le c 0 with hneg | hpos
  · exact ⟨45, _, itoa_of_neg hneg, Or.inl rfl⟩
  · obtain ⟨b, t, hb⟩ := List.exists_cons_of_ne_nil (decimal_ne_nil c.toNat)
    refine ⟨b, t, by rw [itoa_of_nonneg hpos, hb], Or.inr ?_⟩
    exact isDigit_of_mem_decimal b (hb ▸ List.mem_cons_self)

theorem leadingInt_space {b : Byte} (hb : isSpace b = true) (s : GoString) :
    leadingInt (b :: s) = leadingInt s := by
  rw [leadingInt, List.dropWhile_cons_of_pos hb, leadingInt]

/-- A number of 32 bits without a sign is read back too, when it is taken as one again. -/
theorem atoi_decimal_mod {n : ℕ} (hn : n < 2 ^ 32) {rest : GoString}
    (hrest : ∀ b ∈ rest.head?, ¬ IsDigit b) : atoi (decimal n ++ rest) % 2 ^ 32 = n := by
  have hlead : leadingInt (decimal n ++ rest) = n := by
    rw [leadingInt_digits (decimal_ne_nil n) (fun b hb => isDigit_of_mem_decimal b hb) hrest,
      digitsValue_decimal]
  have hlong : strtol (decimal n ++ rest) = n := by
    rw [strtol, hlead]
    omega
  have hmod : ((n : ℤ).bmod (2 ^ 32)) % ((2 ^ 32 : ℕ) : ℤ) = (n : ℤ) % ((2 ^ 32 : ℕ) : ℤ) :=
    Int.bmod_emod
  rw [atoi, hlong]
  exact hmod.trans (Int.emod_eq_of_lt (by omega) (by exact_mod_cast hn))

theorem atoi_space {b : Byte} (hb : isSpace b = true) (s : GoString) : atoi (b :: s) = atoi s := by
  rw [atoi, atoi, strtol, strtol, leadingInt_space hb]

theorem digitsValue_le_of_initial {n : ℕ} {ds : GoString} (hpre : ds <+: decimal n) :
    digitsValue ds ≤ n := by
  induction n using decimal_induction generalizing ds with
  | single d hd =>
    rw [decimal_of_lt hd, List.prefix_cons_iff] at hpre
    rcases hpre with rfl | ⟨t, rfl, ht⟩
    · exact Nat.zero_le d
    · obtain rfl := List.prefix_nil.mp ht
      rw [← decimal_of_lt hd, digitsValue_decimal]
  | snoc n d hn hd ih =>
    rw [decimal_snoc hn hd, List.prefix_concat_iff] at hpre
    rcases hpre with rfl | hpre
    · rw [← decimal_snoc hn hd, digitsValue_decimal]
    · have := ih hpre
      omega

/-- The first digits of a number, not all of them, are those of a smaller number. -/
theorem digitsValue_lt_of_initial {n : ℕ} {ds : GoString} (hne : ds ≠ []) (hpre : ds <+: decimal n)
    (hlt : ds ≠ decimal n) : digitsValue ds < n := by
  induction n using decimal_induction with
  | single d hd =>
    rw [decimal_of_lt hd, List.prefix_cons_iff] at hpre
    rcases hpre with rfl | ⟨t, rfl, ht⟩
    · exact absurd rfl hne
    · obtain rfl := List.prefix_nil.mp ht
      exact absurd (decimal_of_lt hd).symm hlt
  | snoc n d hn hd =>
    rw [decimal_snoc hn hd] at hlt
    rw [decimal_snoc hn hd, List.prefix_concat_iff] at hpre
    rcases hpre with rfl | hpre
    · exact absurd rfl hlt
    · have := digitsValue_le_of_initial hpre
      omega

/-- Of the first bytes of a text that begins with a number, `atoi` reads the number if and
only if they hold all of it. -/
theorem atoi_prefix_iff {c : ℤ} (hc : InInt32 c) {s rest : GoString} (hne : s ≠ [])
    (hpre : s <+: itoa c ++ rest) (hrest : ∀ b ∈ rest.head?, ¬ IsDigit b) :
    atoi s = c ↔ itoa c <+: s := by
  constructor
  · intro h
    by_contra hnot
    obtain hs | hs := List.prefix_or_prefix_of_prefix hpre (List.prefix_append (itoa c) rest)
    · have hlt : s ≠ itoa c := fun heq => hnot (heq ▸ List.prefix_rfl)
      rcases Int.lt_or_le c 0 with hneg | hpos
      · rw [itoa_of_neg hneg] at hs hlt
        rcases List.prefix_cons_iff.mp hs with rfl | ⟨ds, rfl, hds⟩
        · exact hne rfl
        · have hdig : ∀ b ∈ ds, IsDigit b := fun b hb => isDigit_of_mem_decimal b (hds.subset hb)
          have hle : digitsValue ds < (-c).toNat ∨ ds = [] := by
            by_cases hnil : ds = []
            · exact Or.inr hnil
            · exact Or.inl (digitsValue_lt_of_initial hnil hds fun heq => hlt (heq ▸ rfl))
          have hlead := leadingInt_minus hdig (fun b (hb : b ∈ ([] : GoString).head?) => nomatch hb)
          rw [List.append_nil] at hlead
          have hval : atoi (45 :: ds) = -digitsValue ds := by
            refine atoi_of_leadingInt hlead ⟨?_, ?_⟩
            · have := digitsValue_le_of_initial hds
              have := hc.1
              omega
            · omega
          rw [hval] at h
          rcases hle with hle | rfl
          · omega
          · have hzero : digitsValue [] = 0 := rfl
            rw [hzero] at h
            omega
      · rw [itoa_of_nonneg hpos] at hs hlt
        have hdig : ∀ b ∈ s, IsDigit b := fun b hb => isDigit_of_mem_decimal b (hs.subset hb)
        have hless := digitsValue_lt_of_initial hne hs hlt
        have hlead := leadingInt_digits hne hdig
          (fun b (hb : b ∈ ([] : GoString).head?) => nomatch hb)
        rw [List.append_nil] at hlead
        have hval : atoi s = digitsValue s := by
          have := hc.2
          exact atoi_of_leadingInt hlead ⟨by omega, by omega⟩
        rw [hval] at h
        omega
    · exact hnot hs
  · rintro ⟨t, rfl⟩
    rw [List.prefix_append_right_inj] at hpre
    refine atoi_itoa hc fun b hb => hrest b ?_
    cases t with
    | nil => cases hb
    | cons d t =>
      obtain rfl := Option.some.inj hb
      obtain ⟨u, rfl⟩ := hpre
      rfl

theorem leadingDigits_append_nul (ds rest : GoString) :
    leadingDigits (ds ++ nul :: rest) = leadingDigits ds := by
  induction ds with
  | nil => exact List.takeWhile_cons_of_neg (by decide)
  | cons b ds ih =>
    unfold leadingDigits at ih ⊢
    rw [List.cons_append, List.takeWhile_cons, List.takeWhile_cons, ih]

/-- The number ends where the string does. -/
theorem atoi_append_nul (s rest : GoString) : atoi (s ++ nul :: rest) = atoi s := by
  have hlead : leadingInt (s ++ nul :: rest) = leadingInt s := by
    induction s with
    | nil => rfl
    | cons b s ih =>
      unfold leadingInt at ih ⊢
      rw [List.cons_append]
      by_cases hb : isSpace b = true
      · rw [List.dropWhile_cons_of_pos hb, List.dropWhile_cons_of_pos hb]
        exact ih
      · rw [List.dropWhile_cons_of_neg hb, List.dropWhile_cons_of_neg hb]
        rw [signAndDigits_append]
        simp only [leadingDigits_append_nul]
  rw [atoi, atoi, strtol, strtol, hlead]

/-! ## Fixed-width hexadecimal text -/

def hexDigit (d : ℕ) : Byte := if d < 10 then UInt8.ofNat (48 + d) else UInt8.ofNat (87 + d)

/-- `%0wllx` of a number below `16 ^ w`. -/
def hex : ℕ → ℕ → GoString
  | 0, _ => []
  | w + 1, n => hex w (n / 16) ++ [hexDigit (n % 16)]

@[simp] theorem length_hex (w n : ℕ) : (hex w n).length = w := by
  induction w generalizing n with
  | zero => rfl
  | succ w ih => rw [hex, List.length_append, ih, List.length_singleton]

theorem hexDigit_injective {d e : ℕ} (hd : d < 16) (he : e < 16) (h : hexDigit d = hexDigit e) :
    d = e := by
  have hall : ∀ a ∈ List.range 16, ∀ b ∈ List.range 16, hexDigit a = hexDigit b → a = b := by
    decide
  exact hall d (List.mem_range.mpr hd) e (List.mem_range.mpr he) h

theorem hex_injective {w m n : ℕ} (hm : m < 16 ^ w) (hn : n < 16 ^ w) (h : hex w m = hex w n) :
    m = n := by
  induction w generalizing m n with
  | zero =>
    rw [Nat.pow_zero] at hm hn
    omega
  | succ w ih =>
    rw [Nat.pow_succ] at hm hn
    obtain ⟨hinit, hlast⟩ := List.append_inj' h rfl
    have hdiv := ih (by omega) (by omega) hinit
    have hmod := hexDigit_injective (Nat.mod_lt m (by omega)) (Nat.mod_lt n (by omega))
      (List.cons.inj hlast).1
    omega

end CString
