import Mathlib.Algebra.Group.Int.Defs
import Mathlib.Algebra.Group.Nat.Defs
import YcAgent.Base.Strings

/-!
# Number and boolean conversions of `strconv`

`int` has 64 bits, as on every platform the agent is built for.
-/
namespace Go

def digit? (b : Byte) : Option Nat :=
  if 48 ≤ b ∧ b ≤ 57 then some (b.toNat - 48) else none

def digits? (ds : GoString) : Option Nat :=
  ds.foldlM (fun acc b => (digit? b).map (acc * 10 + ·)) 0

def InInt64 (v : Int) : Prop := -2 ^ 63 ≤ v ∧ v < 2 ^ 63

instance (v : Int) : Decidable (InInt64 v) := inferInstanceAs (Decidable (_ ∧ _))

/-- The optional sign in front of the digits. -/
def signAndDigits : GoString → Bool × GoString
  | 45 :: t => (true, t)
  | 43 :: t => (false, t)
  | s => (false, s)

/-- `strconv.Atoi`; `none` is any of its errors. -/
def atoi (s : GoString) : Option Int :=
  let (neg, ds) := signAndDigits s
  if ds = [] then none
  else do
    let n ← digits? ds
    let v : Int := if neg then -n else n
    if InInt64 v then some v else none

/-- `strconv.Itoa`. -/
def itoa (n : Int) : GoString := str (toString n)

/-- `strconv.ParseBool` on text that is already in lower case. -/
def parseBoolLower (s : GoString) : Option Bool :=
  if s ∈ [str "1", str "t", str "true"] then some true
  else if s ∈ [str "0", str "f", str "false"] then some false
  else none

/-- `strconv.FormatBool`. -/
def formatBool (b : Bool) : GoString := if b then str "true" else str "false"

theorem digit?_of_digits? {ds : GoString} :
    ∀ {acc n : Nat}, ds.foldlM (fun acc b => (digit? b).map (acc * 10 + ·)) acc = some n →
      ∀ b ∈ ds, (digit? b).isSome := by
  induction ds with
  | nil => simp
  | cons c ds ih =>
    intro acc n h b hb
    simp only [List.foldlM_cons, Option.bind_eq_bind, Option.bind_eq_some_iff,
      Option.map_eq_some_iff] at h
    obtain ⟨m, ⟨d, hd, -⟩, hrest⟩ := h
    rcases List.mem_cons.mp hb with rfl | hb
    · simp [hd]
    · exact ih hrest b hb

theorem digit?_space : digit? space = none := by decide

/-- Text that `Atoi` accepts holds no space, so splitting at spaces leaves it whole. -/
theorem space_not_mem_of_atoi {s : GoString} {p : Int} (h : atoi s = some p) : space ∉ s := by
  intro hs
  have hds : space ∈ (signAndDigits s).2 := by
    unfold signAndDigits
    split
    · simpa [space] using hs
    · simpa [space] using hs
    · exact hs
  simp only [atoi] at h
  split at h
  · cases h
  · simp only [Option.bind_eq_bind, Option.bind_eq_some_iff] at h
    obtain ⟨n, hn, -⟩ := h
    have := digit?_of_digits? hn space hds
    simp [digit?_space] at this

/-- The errors of `Atoi`. -/
inductive NumError where
  | errSyntax
  | errRange
  deriving DecidableEq

def maxUint64 : Nat := 2 ^ 64 - 1

/-- `strconv.ParseUint` behind the first `n`; an overflow is reported before the bytes that
follow it are looked at. -/
def parseUint (n : Nat) : GoString → Except NumError Nat
  | [] => .ok n
  | b :: t =>
    match digit? b with
    | none => .error .errSyntax
    | some d => if maxUint64 < n * 10 + d then .error .errRange else parseUint (n * 10 + d) t

/-- Both results of `strconv.Atoi`: a text out of range gives the nearest integer. -/
def atoiResult (s : GoString) : Int × Option NumError :=
  let (neg, ds) := signAndDigits s
  if ds = [] then (0, some .errSyntax)
  else match parseUint 0 ds with
    | .error .errSyntax => (0, some .errSyntax)
    | .error .errRange => (if neg then -2 ^ 63 else 2 ^ 63 - 1, some .errRange)
    | .ok n =>
      let v : Int := if neg then -n else n
      if InInt64 v then (v, none) else (if neg then -2 ^ 63 else 2 ^ 63 - 1, some .errRange)

/-- `ParseUint` reads the digits unless their value does not fit. -/
theorem digits?_of_parseUint {ds : GoString} {acc : Nat} :
    ds.foldlM (fun acc b => (digit? b).map (acc * 10 + ·)) acc =
      match parseUint acc ds with
      | .ok n => some n
      | .error .errSyntax => none
      | .error .errRange => ds.foldlM (fun acc b => (digit? b).map (acc * 10 + ·)) acc := by
  induction ds generalizing acc with
  | nil => rfl
  | cons b t ih =>
    rw [List.foldlM_cons, parseUint]
    cases hd : digit? b with
    | none => rfl
    | some d =>
      simp only [Option.map_some, Option.bind_eq_bind, Option.bind_some]
      by_cases hbig : maxUint64 < acc * 10 + d
      · simp only [if_pos hbig]
      · simp only [if_neg hbig]
        exact ih

theorem le_of_digits? {ds : GoString} {acc n : Nat}
    (h : ds.foldlM (fun acc b => (digit? b).map (acc * 10 + ·)) acc = some n) : acc ≤ n := by
  induction ds generalizing acc with
  | nil =>
    cases h
    exact Nat.le_refl _
  | cons b t ih =>
    rw [List.foldlM_cons, Option.bind_eq_bind, Option.bind_eq_some_iff] at h
    obtain ⟨m, hm, hrest⟩ := h
    obtain ⟨d, -, rfl⟩ := Option.map_eq_some_iff.mp hm
    have := ih hrest
    omega

theorem big_of_parseUint_range {ds : GoString} {acc n : Nat}
    (hrange : parseUint acc ds = .error .errRange)
    (h : ds.foldlM (fun acc b => (digit? b).map (acc * 10 + ·)) acc = some n) :
    maxUint64 < n := by
  induction ds generalizing acc with
  | nil => cases hrange
  | cons b t ih =>
    rw [List.foldlM_cons, Option.bind_eq_bind, Option.bind_eq_some_iff] at h
    obtain ⟨m, hm, hrest⟩ := h
    obtain ⟨d, hd, rfl⟩ := Option.map_eq_some_iff.mp hm
    rw [parseUint, hd] at hrange
    by_cases hbig : maxUint64 < acc * 10 + d
    · have := le_of_digits? hrest
      omega
    · simp only [if_neg hbig] at hrange
      exact ih hrange hrest

/-- Without an error the first result is the integer, and only then there is one. -/
theorem atoi_eq_atoiResult (s : GoString) :
    atoi s = if (atoiResult s).2 = none then some (atoiResult s).1 else none := by
  unfold atoi atoiResult
  obtain ⟨neg, ds⟩ := signAndDigits s
  simp only
  by_cases hds : ds = []
  · simp [hds]
  · simp only [if_neg hds, digits?]
    rw [digits?_of_parseUint]
    cases hp : parseUint 0 ds with
    | ok n =>
      simp only [Option.bind_eq_bind, Option.bind_some]
      by_cases hin : InInt64 (if neg = true then -(n : Int) else n)
      · simp [hin]
      · simp [hin]
    | error e =>
      cases e with
      | errSyntax => simp
      | errRange =>
        simp only [Option.bind_eq_bind, reduceCtorEq, if_false]
        cases hn : ds.foldlM (fun acc b => (digit? b).map (acc * 10 + ·)) 0 with
        | none => rfl
        | some n =>
          have hbig := big_of_parseUint_range hp hn
          have hout : ¬ InInt64 (if neg = true then -(n : Int) else n) := by
            unfold maxUint64 at hbig
            unfold InInt64
            split <;> omega
          simp [hout]

example : atoi (str "-12") = some (-12) := by decide

end Go
