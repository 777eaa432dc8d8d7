import YcAgent.Base.Fallible
import YcAgent.Base.Submatch
import YcAgent.Capture.GCLog

/-!
# The names of a rotation

`ProcessGCLogFile` puts the base name of the log into two regular expressions and searches
every name in the directory for them. Neither the dots of the base name are quoted nor is
the search bound to the whole name.
-/
namespace YcAgent.Capture.GCRecognition

open Go Go.FilePath

/-! ## The regular expressions -/

/-- What is left behind a number of a repetition. -/
def behindInt (s : GoString) : Option GoString :=
  let ds := s.takeWhile (IsDigit ·)
  if ds = [] ∨ 1 < ds.length ∧ ds.head? = some 48 then none else some (s.drop ds.length)

/-- A brace with this behind it begins a repetition; every other brace stands for itself. -/
def isRepeat (s : GoString) : Bool :=
  match behindInt s with
  | none => false
  | some rest =>
    match rest with
    | 125 :: _ => true
    | 44 :: 125 :: _ => true
    | 44 :: rest => (behindInt rest).any fun rest => rest.head? = some 125
    | _ => false

/-- The characters with a special meaning, but for dots and braces. -/
def operators : GoString := str "\\+*?()|[^$"

/-- No character has a special meaning, dots apart. -/
def literalText : GoString → Bool
  | [] => true
  | b :: s => b ∉ operators && !(b = 123 && isRepeat s) && literalText s

theorem not_mem_operators {s : GoString} (h : literalText s = true) {b : Byte} (hb : b ∈ s) :
    b ∉ operators := by
  induction s with
  | nil => cases hb
  | cons c s ih =>
    rw [literalText, Bool.and_eq_true, Bool.and_eq_true] at h
    rcases List.mem_cons.mp hb with rfl | hb
    · exact of_decide_eq_true h.1.1
    · exact ih h.2 hb

def replacementChar : GoString := [0xEF, 0xBF, 0xBD]

/-- A name that is read as it stands. The replacement character also stands for a byte that is part
of no character. -/
def PlainName (name : GoString) : Prop :=
  literalText name = true ∧ validString name = true ∧ ¬ replacementChar <:+: name

instance : DecidablePred PlainName := fun _ => inferInstanceAs (Decidable (_ ∧ _))

/-- A name with one operator, which is at `i`. -/
structure OneOperator (name : GoString) (i : ℕ) (b : Byte) : Prop where
  get : name[i]? = some b
  operator : b ∈ operators
  front : PlainName (name.take i)
  back : PlainName (name.drop (i + 1))

/-- A name that makes no expression: a parenthesis has no partner, a bracket is closed behind the
name only, with the group of the digits, or there is nothing to repeat. -/
def Broken (name : GoString) : Prop :=
  ∃ i b, OneOperator name i b ∧
    (b ∈ str "()" ∨ (b = 91 ∧ 93 ∉ name.drop (i + 1)) ∨ (b ∈ str "*+?" ∧ i = 0))

/-- A name that makes an expression that nothing matches: the end of the text in front of the dot,
or its beginning behind a character. -/
def Matchless (name : GoString) : Prop :=
  ∃ i b, OneOperator name i b ∧ (b = 36 ∨ (b = 94 ∧ i ≠ 0))

/-- `name\.([0-9]+)` from here on: the match and its group. -/
def rotatedHere (name s : GoString) : Option (List GoString) := do
  let behind ← behindName name s
  let (ds, back) ← dotDigits behind
  return [s.take (s.length - back.length), ds]

/-- `name\.([0-9]+?)\.current` from here on. -/
def currentHere (name s : GoString) : Option (List GoString) := do
  let behind ← behindName name s
  let (ds, back) ← dotDigits behind
  if hasPrefix back (str ".current") then
    return [s.take (s.length - (back.length - (str ".current").length)), ds]
  else none

/-- `FindStringSubmatch`, empty when there is no match. -/
def findRotated (name f : GoString) : List GoString := (leftmost (rotatedHere name) 0 f).getD []
def findCurrent (name f : GoString) : List GoString := (leftmost (currentHere name) 0 f).getD []

/-- The regexp package, known on names without operators, on names that make no expression, and
on names that make one without matches. -/
structure Regexp where
  compile : Compile
  current : ∀ name, PlainName name →
    compile (name ++ str "\\.([0-9]+?)\\.current") = some (findCurrent name)
  rotated : ∀ name, PlainName name →
    compile (name ++ str "\\.([0-9]+)") = some (findRotated name)
  invalid : ∀ name, validString name = false →
    compile (name ++ str "\\.([0-9]+?)\\.current") = none
  broken : ∀ name, Broken name → compile (name ++ str "\\.([0-9]+?)\\.current") = none
  matchless : ∀ name, Matchless name →
    compile (name ++ str "\\.([0-9]+?)\\.current") = some (fun _ => []) ∧
      compile (name ++ str "\\.([0-9]+)") = some fun _ => []

/-! ## The names that are meant -/

/-- The digits of `name.<digits>`. -/
def rotatedDigits (name f : GoString) : Option GoString :=
  if hasPrefix f (name ++ [dot]) then
    let ds := f.drop (name.length + 1)
    if ds ≠ [] ∧ ∀ b ∈ ds, IsDigit b then some ds else none
  else none

/-- The digits of `name.<digits>.current`. -/
def currentDigits (name f : GoString) : Option GoString :=
  if hasSuffix f (str ".current") then rotatedDigits name (trimSuffix f (str ".current")) else none

def ownCurrent (name f : GoString) : Option (List GoString) :=
  (currentDigits name f).map fun ds => [f, ds]

def ownNumber (name f : GoString) : Option Int :=
  (rotatedDigits name f).map fun ds => (digitsValue ds : Int)

/-- The scan does not panic, its current log is the last entry `name.<digits>.current` and its
indices are the numbers of the entries `name.<digits>`. -/
def Recognises (compile : Compile) (path : GoString) (fs : List GoString) : Prop :=
  rotation compile path fs =
    some ⟨((fs.filterMap (ownCurrent (base path))).getLast?).getD [],
      fs.filterMap (ownNumber (base path))⟩

theorem rotatedDigits_eq_some_iff {name f ds : GoString} :
    rotatedDigits name f = some ds ↔
      f = name ++ dot :: ds ∧ ds ≠ [] ∧ ∀ b ∈ ds, IsDigit b := by
  have hsplit : name ++ dot :: ds = (name ++ [dot]) ++ ds := by simp
  have hdrop (rest : GoString) : ((name ++ [dot]) ++ rest).drop (name.length + 1) = rest :=
    List.drop_left' (by simp)
  unfold rotatedDigits
  constructor
  · intro h
    split at h
    · rename_i hprefix
      obtain ⟨rest, rfl⟩ := List.isPrefixOf_iff_prefix.mp hprefix
      simp only [hdrop] at h
      split at h
      · rename_i hdigits
        obtain rfl := Option.some.inj h
        exact ⟨hsplit.symm, hdigits⟩
      · cases h
    · cases h
  · intro ⟨hf, hdigits⟩
    have hprefix : hasPrefix f (name ++ [dot]) = true :=
      List.isPrefixOf_iff_prefix.mpr ⟨ds, by rw [hf, hsplit]⟩
    rw [if_pos hprefix, hf, hsplit]
    simp only [hdrop]
    exact if_pos hdigits

theorem currentDigits_eq_some_iff {name f ds : GoString} :
    currentDigits name f = some ds ↔
      f = name ++ dot :: (ds ++ str ".current") ∧ ds ≠ [] ∧ ∀ b ∈ ds, IsDigit b := by
  have hassoc : name ++ dot :: (ds ++ str ".current") = (name ++ dot :: ds) ++ str ".current" := by
    simp
  unfold currentDigits
  constructor
  · intro h
    split at h
    · rename_i hsuffix
      obtain ⟨front, rfl⟩ := List.isSuffixOf_iff_suffix.mp hsuffix
      rw [trimSuffix_append] at h
      obtain ⟨rfl, hdigits⟩ := rotatedDigits_eq_some_iff.mp h
      exact ⟨hassoc.symm, hdigits⟩
    · cases h
  · intro ⟨hf, hdigits⟩
    have hsuffix : hasSuffix f (str ".current") = true :=
      List.isSuffixOf_iff_suffix.mpr ⟨name ++ dot :: ds, by rw [hf, hassoc]⟩
    rw [if_pos hsuffix, hf, hassoc, trimSuffix_append]
    exact rotatedDigits_eq_some_iff.mpr ⟨rfl, hdigits⟩

/-! ## The scan -/

/-- The submatches that were found, unless there are none. -/
def foundBy (find : GoString → List GoString) (f : GoString) : Option (List GoString) :=
  if 1 < (find f).length then some (find f) else none

/-- The index that an entry adds. -/
def countedBy (re reo : GoString → List GoString) (f : GoString) : Option Int :=
  if foundBy re f = none then (foundBy reo f).bind fun groups => atoi (groups.getD 1 []) else none

theorem rotationName_eq (re reo : GoString → List GoString) (r : Rotation) (f : GoString) :
    rotationName re reo r f =
      ⟨(foundBy re f).getD r.rf, r.files ++ (countedBy re reo f).toList⟩ := by
  unfold rotationName countedBy foundBy
  by_cases hre : 1 < (re f).length
  · simp [hre]
  · by_cases hreo : 1 < (reo f).length
    · simp only [if_neg hre, if_pos hreo, Option.getD_none, Option.bind_some, if_true,
        atoi_eq_atoiResult]
      generalize atoiResult ((reo f).getD 1 []) = result
      obtain ⟨p, err⟩ := result
      cases err
      · rfl
      · simp
    · simp [hre, hreo]

theorem foldl_rotationName (re reo : GoString → List GoString) (fs : List GoString) (r : Rotation) :
    fs.foldl (rotationName re reo) r =
      ⟨((fs.filterMap (foundBy re)).getLast?).getD r.rf,
        r.files ++ fs.filterMap (countedBy re reo)⟩ := by
  induction fs generalizing r with
  | nil => simp
  | cons f fs ih =>
    rw [List.foldl_cons, rotationName_eq, ih]
    simp only [List.filterMap_cons]
    cases foundBy re f <;> cases countedBy re reo f <;> simp [List.getLast?_cons]

/-- What the scan finds with two functions is what is meant. -/
structure Exact (name : GoString) (re reo : GoString → List GoString) (fs : List GoString) :
    Prop where
  last : (fs.filterMap (foundBy re)).getLast? = (fs.filterMap (ownCurrent name)).getLast?
  numbers : fs.filterMap (countedBy re reo) = fs.filterMap (ownNumber name)

theorem ne_nil_of_foundBy {find : GoString → List GoString} {f : GoString} {groups : List GoString}
    (h : foundBy find f = some groups) : groups ≠ [] := by
  unfold foundBy at h
  split at h
  · rename_i hlen
    obtain rfl := Option.some.inj h
    intro hnil
    rw [hnil] at hlen
    exact absurd hlen (by decide)
  · cases h

theorem ne_nil_of_ownCurrent {name f : GoString} {groups : List GoString}
    (h : ownCurrent name f = some groups) : groups ≠ [] := by
  obtain ⟨ds, -, rfl⟩ := Option.map_eq_some_iff.mp h
  exact List.cons_ne_nil _ _

/-- A last result that is never empty is told from none. -/
theorem getLast?_eq_of_getD {l l' : List (List GoString)} (hl : ∀ x ∈ l, x ≠ [])
    (hl' : ∀ x ∈ l', x ≠ []) (h : l.getLast?.getD [] = l'.getLast?.getD []) :
    l.getLast? = l'.getLast? := by
  cases hlast : l.getLast? with
  | none =>
    cases hlast' : l'.getLast? with
    | none => rfl
    | some x' =>
      rw [hlast, hlast'] at h
      exact absurd h.symm (hl' x' (List.mem_of_getLast? hlast'))
  | some x =>
    cases hlast' : l'.getLast? with
    | none =>
      rw [hlast, hlast'] at h
      exact absurd h (hl x (List.mem_of_getLast? hlast))
    | some x' =>
      rw [hlast, hlast'] at h
      exact congrArg some h

/-- For any name: both expressions compile, and what they find is what is meant. -/
theorem recognises_iff_exact (compile : Compile) (path : GoString) (fs : List GoString) :
    Recognises compile path fs ↔
      ∃ re reo, compile (base path ++ str "\\.([0-9]+?)\\.current") = some re ∧
        compile (base path ++ str "\\.([0-9]+)") = some reo ∧ Exact (base path) re reo fs := by
  unfold Recognises rotation
  constructor
  · intro h
    obtain ⟨re, hre, h⟩ := Option.bind_eq_some_iff.mp h
    obtain ⟨reo, hreo, h⟩ := Option.bind_eq_some_iff.mp h
    have hscan := Option.some.inj h
    rw [foldl_rotationName, Rotation.mk.injEq, List.nil_append] at hscan
    refine ⟨re, reo, hre, hreo, getLast?_eq_of_getD ?_ ?_ hscan.1, hscan.2⟩
    · intro groups hgroups
      obtain ⟨f, -, hf⟩ := List.mem_filterMap.mp hgroups
      exact ne_nil_of_foundBy hf
    · intro groups hgroups
      obtain ⟨f, -, hf⟩ := List.mem_filterMap.mp hgroups
      exact ne_nil_of_ownCurrent hf
  · intro ⟨re, reo, hre, hreo, hexact⟩
    rw [hre, hreo]
    show some (fs.foldl (rotationName re reo) ⟨[], []⟩) = _
    rw [foldl_rotationName, hexact.last, hexact.numbers, List.nil_append]

theorem recognises_iff_of_compile {compile : Compile} {path : GoString}
    {re reo : GoString → List GoString}
    (hre : compile (base path ++ str "\\.([0-9]+?)\\.current") = some re)
    (hreo : compile (base path ++ str "\\.([0-9]+)") = some reo) (fs : List GoString) :
    Recognises compile path fs ↔ Exact (base path) re reo fs := by
  rw [recognises_iff_exact]
  constructor
  · rintro ⟨re', reo', hre', hreo', hexact⟩
    obtain rfl := Option.some.inj (hre.symm.trans hre')
    obtain rfl := Option.some.inj (hreo.symm.trans hreo')
    exact hexact
  · intro hexact
    exact ⟨re, reo, hre, hreo, hexact⟩

/-! ## Names without special characters -/

section Plain

variable {name ds : GoString}

theorem currentHere_own (hne : ds ≠ []) (hds : ∀ b ∈ ds, IsDigit b) :
    currentHere name (name ++ dot :: (ds ++ str ".current")) =
      some [name ++ dot :: (ds ++ str ".current"), ds] := by
  have hback : ∀ b, (str ".current").head? = some b → ¬ IsDigit b := by decide
  rw [currentHere, behindName_append]
  simp only [Option.bind_eq_bind, Option.bind_some, dotDigits_append hne hds hback]
  rw [if_pos (by decide), Nat.sub_self, Nat.sub_zero, List.take_length]
  rfl

theorem rotatedHere_own (hne : ds ≠ []) (hds : ∀ b ∈ ds, IsDigit b) :
    rotatedHere name (name ++ dot :: ds) = some [name ++ dot :: ds, ds] := by
  have hnone : ∀ b, ([] : GoString).head? = some b → ¬ IsDigit b := fun b hb => by cases hb
  have hdigits := dotDigits_append hne hds hnone
  rw [List.append_nil] at hdigits
  rw [rotatedHere, behindName_append]
  simp only [Option.bind_eq_bind, Option.bind_some, hdigits]
  rw [List.length_nil, Nat.sub_zero, List.take_length]
  rfl

/-- There is no room for `.current` behind the digits. -/
theorem currentHere_eq_none (hds : ∀ b ∈ ds, IsDigit b) {t : GoString}
    (ht : t <:+ name ++ dot :: ds) : currentHere name t = none := by
  rw [currentHere]
  cases hbehind : behindName name t with
  | none => rfl
  | some behind =>
    cases hdigits : dotDigits behind with
    | none => simp [hdigits]
    | some found =>
      obtain ⟨ds', back⟩ := found
      have hback : ¬ str ".current" <+: back := by
        intro hcurrent
        obtain ⟨hsuffix, hlen⟩ := behindName_suffix hbehind
        have hlen' := ht.length_le
        have hwhole : back <:+ dot :: ds := by
          have hboth := (dotDigits_suffix hdigits).trans (hsuffix.trans ht)
          refine List.suffix_of_suffix_length_le hboth (List.suffix_append name _) ?_
          have hshort := (dotDigits_suffix hdigits).length_le
          rw [List.length_append] at hlen'
          omega
        have hletter : (99 : Byte) ∈ dot :: ds :=
          hwhole.subset (hcurrent.subset (by decide))
        rcases List.mem_cons.mp hletter with h | h
        · exact absurd h (by decide)
        · exact absurd (hds 99 h) (by decide)
      simp [hdigits, hback]

theorem findCurrent_own (hne : ds ≠ []) (hds : ∀ b ∈ ds, IsDigit b) :
    findCurrent name (name ++ dot :: (ds ++ str ".current")) =
      [name ++ dot :: (ds ++ str ".current"), ds] := by
  rw [findCurrent, leftmost_of_here (currentHere_own hne hds), Option.getD_some]

theorem findRotated_own (hne : ds ≠ []) (hds : ∀ b ∈ ds, IsDigit b) :
    findRotated name (name ++ dot :: ds) = [name ++ dot :: ds, ds] := by
  rw [findRotated, leftmost_of_here (rotatedHere_own hne hds), Option.getD_some]

theorem findCurrent_rotated (hds : ∀ b ∈ ds, IsDigit b) :
    findCurrent name (name ++ dot :: ds) = [] := by
  rw [findCurrent, leftmost_eq_none (fun t ht => currentHere_eq_none hds ht), Option.getD_none]

theorem foundBy_own {f : GoString}
    (h : currentDigits name f = some ds) : foundBy (findCurrent name) f = some [f, ds] := by
  obtain ⟨rfl, hne, hds⟩ := currentDigits_eq_some_iff.mp h
  rw [foundBy, findCurrent_own hne hds]
  rfl

theorem countedBy_rotated {f : GoString}
    (h : rotatedDigits name f = some ds) :
    countedBy (findCurrent name) (findRotated name) f =
      if InInt64 (digitsValue ds) then ownNumber name f else none := by
  rw [ownNumber, h, Option.map_some]
  obtain ⟨rfl, hne, hds⟩ := rotatedDigits_eq_some_iff.mp h
  rw [countedBy, foundBy, findCurrent_rotated hds, foundBy, findRotated_own hne hds]
  exact atoi_of_digits hne hds

theorem inInt64_of_countedBy {re reo : GoString → List GoString} {f : GoString} {n : Int}
    (h : countedBy re reo f = some n) : InInt64 n := by
  unfold countedBy at h
  split at h
  · obtain ⟨groups, -, hn⟩ := Option.bind_eq_some_iff.mp h
    exact inInt64_of_atoi hn
  · cases h

theorem find_cases {find : GoString → List GoString} {here : GoString → Option (List GoString)}
    (hfind : ∀ f, find f = (leftmost here 0 f).getD [])
    (hpair : ∀ s groups, here s = some groups → ∃ text ds, groups = [text, ds]) (f : GoString) :
    find f = [] ∨ ∃ text ds, find f = [text, ds] := by
  rw [hfind]
  cases hleft : leftmost here 0 f with
  | none => exact Or.inl rfl
  | some groups =>
    obtain ⟨t, -, ht⟩ := exists_of_leftmost hleft
    exact Or.inr (hpair t groups ht)

theorem findCurrent_cases (name f : GoString) :
    findCurrent name f = [] ∨ ∃ text ds, findCurrent name f = [text, ds] := by
  refine find_cases (fun _ => rfl) (fun s groups h => ?_) f
  obtain ⟨behind, -, h⟩ := Option.bind_eq_some_iff.mp h
  obtain ⟨found, -, h⟩ := Option.bind_eq_some_iff.mp h
  dsimp only at h
  split at h
  · exact ⟨_, _, (Option.some.inj h).symm⟩
  · cases h

theorem findRotated_cases (name f : GoString) :
    findRotated name f = [] ∨ ∃ text ds, findRotated name f = [text, ds] := by
  refine find_cases (fun _ => rfl) (fun s groups h => ?_) f
  obtain ⟨behind, -, h⟩ := Option.bind_eq_some_iff.mp h
  obtain ⟨found, -, h⟩ := Option.bind_eq_some_iff.mp h
  exact ⟨_, _, (Option.some.inj h).symm⟩

theorem foundBy_eq_none_iff {find : GoString → List GoString} {f : GoString}
    (hcases : find f = [] ∨ ∃ text ds, find f = [text, ds]) :
    foundBy find f = none ↔ find f = [] := by
  unfold foundBy
  rcases hcases with hnil | ⟨text, ds, hpair⟩
  · rw [hnil]
    exact iff_of_true rfl rfl
  · rw [hpair]
    exact iff_of_false (Option.some_ne_none _) (List.cons_ne_nil _ _)

/-- The condition on the entries. Each other entry that holds a text that reads as the name of a
current log is followed by an entry that holds one too, or its first such text, digits included,
is the last current log in front of it. The indices of the entries `name.<digits>` are integers,
and an entry that is neither has no text that reads as one of them with an integer. -/
structure Separate (name : GoString) (fs : List GoString) : Prop where
  current : ∀ front f back, fs = front ++ f :: back → currentDigits name f = none →
    findCurrent name f ≠ [] →
    (∃ g ∈ back, findCurrent name g ≠ []) ∨
      ∃ before e between, front = before ++ e :: between ∧
        (∀ g ∈ between, currentDigits name g = none) ∧
        ∃ ds, currentDigits name e = some ds ∧ findCurrent name f = [e, ds]
  fits : ∀ f ∈ fs, ∀ ds, rotatedDigits name f = some ds → InInt64 (digitsValue ds)
  others : ∀ f ∈ fs, rotatedDigits name f = none → findCurrent name f = [] →
    ∀ text ds, findRotated name f = [text, ds] → atoi ds = none

theorem ownCurrent_eq_none_iff {f : GoString} :
    ownCurrent name f = none ↔ currentDigits name f = none :=
  Option.map_eq_none_iff

theorem getLast?_foundBy_iff (name : GoString) (fs : List GoString) :
    (fs.filterMap (foundBy (findCurrent name))).getLast? =
        (fs.filterMap (ownCurrent name)).getLast? ↔
      ∀ front f back, fs = front ++ f :: back → currentDigits name f = none →
        findCurrent name f ≠ [] →
        (∃ g ∈ back, findCurrent name g ≠ []) ∨
          ∃ before e between, front = before ++ e :: between ∧
            (∀ g ∈ between, currentDigits name g = none) ∧
            ∃ ds, currentDigits name e = some ds ∧ findCurrent name f = [e, ds] := by
  have hown : ∀ f groups, ownCurrent name f = some groups →
      foundBy (findCurrent name) f = some groups := by
    intro f groups h
    obtain ⟨ds, hds, rfl⟩ := Option.map_eq_some_iff.mp h
    exact foundBy_own hds
  have hfound (f : GoString) : foundBy (findCurrent name) f ≠ none ↔ findCurrent name f ≠ [] :=
    not_congr (foundBy_eq_none_iff (findCurrent_cases name f))
  have hsame (f e : GoString) :
      (ownCurrent name e ≠ none ∧ foundBy (findCurrent name) f = ownCurrent name e) ↔
        ∃ ds, currentDigits name e = some ds ∧ findCurrent name f = [e, ds] := by
    cases hds : currentDigits name e with
    | none => simp [ownCurrent, hds]
    | some ds =>
      rw [ownCurrent, hds, Option.map_some, and_iff_right (Option.some_ne_none _)]
      constructor
      · intro h
        refine ⟨ds, rfl, ?_⟩
        unfold foundBy at h
        split at h
        · exact Option.some.inj h
        · cases h
      · rintro ⟨ds', hds', hfind⟩
        obtain rfl := Option.some.inj hds'
        rw [foundBy, hfind]
        rfl
  rw [Fallible.getLast?_filterMap_eq_iff hown]
  simp only [hfound, hsame, ownCurrent_eq_none_iff]

theorem countedBy_eq_none_iff (name f : GoString) :
    countedBy (findCurrent name) (findRotated name) f = none ↔
      (findCurrent name f = [] → ∀ text ds, findRotated name f = [text, ds] → atoi ds = none) := by
  unfold countedBy
  simp only [foundBy_eq_none_iff (findCurrent_cases name f)]
  split
  · rename_i hcurrent
    rw [hcurrent]
    rcases findRotated_cases name f with hnil | ⟨text, ds, hpair⟩
    · rw [foundBy, hnil]
      exact iff_of_true rfl fun _ text ds h => by cases h
    · rw [foundBy, hpair]
      constructor
      · intro h _ text' ds' heq
        obtain ⟨-, rest⟩ := List.cons.inj heq
        obtain ⟨rfl, -⟩ := List.cons.inj rest
        exact h
      · intro h
        exact h rfl text ds rfl
  · rename_i hcurrent
    exact iff_of_true rfl fun h => absurd h hcurrent

theorem exact_iff_separate (name : GoString) (fs : List GoString) :
    Exact name (findCurrent name) (findRotated name) fs ↔ Separate name fs := by
  constructor
  · intro h
    have hfits : ∀ f ∈ fs, ∀ ds, rotatedDigits name f = some ds → InInt64 (digitsValue ds) := by
      intro f hf ds hds
      have hown : ownNumber name f = some (digitsValue ds : Int) := by
        rw [ownNumber, hds, Option.map_some]
      have hmem := List.mem_filterMap.mpr ⟨f, hf, hown⟩
      rw [← h.numbers] at hmem
      obtain ⟨g, -, hg⟩ := List.mem_filterMap.mp hmem
      exact inInt64_of_countedBy hg
    have hkept : ∀ f ∈ fs, ownNumber name f = none ∨
        countedBy (findCurrent name) (findRotated name) f = ownNumber name f := by
      intro f hf
      cases hds : rotatedDigits name f with
      | none => exact Or.inl (by rw [ownNumber, hds, Option.map_none])
      | some ds =>
        rw [countedBy_rotated hds, if_pos (hfits f hf ds hds)]
        exact Or.inr rfl
    refine ⟨(getLast?_foundBy_iff name fs).mp h.last, hfits, fun f hf hds => ?_⟩
    refine (countedBy_eq_none_iff name f).mp ?_
    rw [Fallible.eq_of_filterMap_eq hkept h.numbers f hf, ownNumber, hds, Option.map_none]
  · intro h
    refine ⟨(getLast?_foundBy_iff name fs).mpr h.current, List.filterMap_congr fun f hf => ?_⟩
    cases hds : rotatedDigits name f with
    | none =>
      rw [(countedBy_eq_none_iff name f).mpr (h.others f hf hds), ownNumber, hds, Option.map_none]
    | some ds => rw [countedBy_rotated hds, if_pos (h.fits f hf ds hds)]

end Plain

theorem recognises_iff_separate (regexp : Regexp) {path : GoString}
    (hname : PlainName (base path)) (fs : List GoString) :
    Recognises regexp.compile path fs ↔ Separate (base path) fs := by
  rw [recognises_iff_of_compile (regexp.current _ hname) (regexp.rotated _ hname)]
  exact exact_iff_separate (base path) fs

/-- No entry is the log that is written or one of the rotated ones. -/
def Absent (name : GoString) (fs : List GoString) : Prop :=
  ∀ f ∈ fs, currentDigits name f = none ∧ rotatedDigits name f = none

/-- Where nothing is found, there must be nothing to be found. -/
theorem exact_iff_absent (name : GoString) (fs : List GoString) :
    Exact name (fun _ => []) (fun _ => []) fs ↔ Absent name fs := by
  have hfound : fs.filterMap (foundBy fun _ => []) = [] :=
    List.filterMap_eq_nil_iff.mpr fun _ _ => rfl
  have hcounted : fs.filterMap (countedBy (fun _ => []) fun _ => []) = [] :=
    List.filterMap_eq_nil_iff.mpr fun _ _ => rfl
  constructor
  · rintro ⟨hlast, hnumbers⟩ f hf
    rw [hfound, List.getLast?_nil, eq_comm, List.getLast?_eq_none_iff] at hlast
    rw [hcounted, eq_comm] at hnumbers
    have hcurrent := List.filterMap_eq_nil_iff.mp hlast f hf
    have hnumber := List.filterMap_eq_nil_iff.mp hnumbers f hf
    exact ⟨ownCurrent_eq_none_iff.mp hcurrent, Option.map_eq_none_iff.mp hnumber⟩
  · intro h
    have hcurrent : fs.filterMap (ownCurrent name) = [] :=
      List.filterMap_eq_nil_iff.mpr fun f hf => ownCurrent_eq_none_iff.mpr (h f hf).1
    have hnumbers : fs.filterMap (ownNumber name) = [] :=
      List.filterMap_eq_nil_iff.mpr fun f hf => Option.map_eq_none_iff.mpr (h f hf).2
    exact ⟨by rw [hfound, hcurrent], by rw [hcounted, hnumbers]⟩

theorem recognises_iff_absent (regexp : Regexp) {path : GoString}
    (hname : Matchless (base path)) (fs : List GoString) :
    Recognises regexp.compile path fs ↔ Absent (base path) fs := by
  obtain ⟨hcurrent, hrotated⟩ := regexp.matchless _ hname
  rw [recognises_iff_of_compile hcurrent hrotated]
  exact exact_iff_absent (base path) fs

/-- A name that is no text, or makes no expression. -/
def Unreadable (name : GoString) : Prop := validString name = false ∨ Broken name

/-- Such a name is a panic in every directory. -/
theorem rotation_of_unreadable (regexp : Regexp) {path : GoString} (h : Unreadable (base path))
    (fs : List GoString) : rotation regexp.compile path fs = none := by
  rcases h with hinvalid | hbroken
  · rw [rotation, regexp.invalid _ hinvalid]
    rfl
  · rw [rotation, regexp.broken _ hbroken]
    rfl

/-- The base name is read as it stands and no other entry gets in between, or it makes an
expression without matches and there is nothing to match. -/
def ReadRight (name : GoString) (fs : List GoString) : Prop :=
  (PlainName name ∧ Separate name fs) ∨ (Matchless name ∧ Absent name fs)

section Operators

variable {name : GoString} {i j : ℕ} {b c : Byte}

theorem OneOperator.not_plain (h : OneOperator name i b) : ¬ PlainName name := fun hname =>
  not_mem_operators hname.1 (List.mem_of_getElem? h.get) h.operator

/-- The operator is the only one. -/
theorem OneOperator.le (h : OneOperator name i b) (h' : OneOperator name j c) : j ≤ i := by
  by_contra hlt
  have hmem : b ∈ name.take j := by
    refine List.mem_of_getElem? (i := i) ?_
    rw [List.getElem?_take_of_lt (by omega)]
    exact h.get
  exact not_mem_operators h'.front.1 hmem h.operator

theorem OneOperator.unique (h : OneOperator name i b) (h' : OneOperator name j c) : b = c := by
  obtain rfl : i = j := Nat.le_antisymm (h'.le h) (h.le h')
  exact Option.some.inj (h.get.symm.trans h'.get)

theorem OneOperator.valid (h : OneOperator name i b) : validString name = true := by
  have hascii : ∀ b ∈ operators, b < 0x80 := by decide
  obtain ⟨hi, hget⟩ := List.getElem?_eq_some_iff.mp h.get
  have hsplit : name.take i ++ b :: name.drop (i + 1) = name := by
    rw [← hget, List.cons_getElem_drop_succ, List.take_append_drop]
  rw [← hsplit]
  exact validString_around h.front.2.1 (hascii b h.operator) h.back.2.1

theorem Matchless.not_plain (h : Matchless name) : ¬ PlainName name := by
  obtain ⟨i, b, hone, -⟩ := h
  exact hone.not_plain

theorem Broken.not_plain (h : Broken name) : ¬ PlainName name := by
  obtain ⟨i, b, hone, -⟩ := h
  exact hone.not_plain

theorem Broken.not_matchless (h : Broken name) : ¬ Matchless name := by
  obtain ⟨i, b, hone, hb⟩ := h
  rintro ⟨j, c, hone', hc⟩
  obtain rfl := hone.unique hone'
  have hb' : b ∈ str "()[*+?" := by
    rcases hb with hparen | ⟨rfl, -⟩ | ⟨hrepeat, -⟩
    · exact List.mem_append_left (str "[*+?") hparen
    · decide
    · exact List.mem_append_right (str "()[") hrepeat
  rcases hc with rfl | ⟨rfl, -⟩
  · exact absurd hb' (by decide)
  · exact absurd hb' (by decide)

end Operators

section Names

variable (find : GoString → GoString → List GoString) {name : GoString}

open Classical in
/-- What a package makes of a name, if it compiles only what is known of all packages. -/
noncomputable def compileName (name : GoString) : Option (GoString → List GoString) :=
  if PlainName name then some (find name)
  else if Matchless name then some fun _ => []
  else none

theorem compileName_plain (h : PlainName name) : compileName find name = some (find name) :=
  if_pos h

theorem compileName_matchless (h : Matchless name) : compileName find name = some fun _ => [] := by
  rw [compileName, if_neg h.not_plain, if_pos h]

theorem compileName_unreadable (h : Unreadable name) : compileName find name = none := by
  rcases h with hinvalid | hbroken
  · have hplain : ¬ PlainName name := fun h => Bool.false_ne_true (hinvalid.symm.trans h.2.1)
    have hmatchless : ¬ Matchless name := by
      rintro ⟨i, b, hone, -⟩
      exact Bool.false_ne_true (hinvalid.symm.trans hone.valid)
    rw [compileName, if_neg hplain, if_neg hmatchless]
  · rw [compileName, if_neg hbroken.not_plain, if_neg hbroken.not_matchless]

end Names

/-- A package that compiles nothing else, told by what is behind the name. -/
noncomputable def Regexp.compileNames : Compile := fun pattern =>
  let current := str "\\.([0-9]+?)\\.current"
  if hasSuffix pattern current then compileName findCurrent (trimSuffix pattern current)
  else compileName findRotated (trimSuffix pattern (str "\\.([0-9]+)"))

theorem compileNames_current (name : GoString) :
    Regexp.compileNames (name ++ str "\\.([0-9]+?)\\.current") = compileName findCurrent name := by
  have hsuffix : hasSuffix (name ++ str "\\.([0-9]+?)\\.current")
      (str "\\.([0-9]+?)\\.current") = true :=
    List.isSuffixOf_iff_suffix.mpr (List.suffix_append _ _)
  simp only [Regexp.compileNames, if_pos hsuffix, trimSuffix_append]

theorem compileNames_rotated (name : GoString) :
    Regexp.compileNames (name ++ str "\\.([0-9]+)") = compileName findRotated name := by
  have hsuffix : ¬ hasSuffix (name ++ str "\\.([0-9]+)")
      (str "\\.([0-9]+?)\\.current") = true := by
    rw [hasSuffix, List.isSuffixOf_iff_suffix]
    intro ⟨front, hfront⟩
    have hlast := congrArg List.getLast? hfront
    have hcurrent : (str "\\.([0-9]+?)\\.current").getLast? = some 116 := by decide
    have hrotated : (str "\\.([0-9]+)").getLast? = some 41 := by decide
    rw [List.getLast?_append, List.getLast?_append, hcurrent, hrotated] at hlast
    exact absurd (Option.some.inj hlast) (by decide)
  simp only [Regexp.compileNames, if_neg hsuffix, trimSuffix_append]

noncomputable def Regexp.names : Regexp where
  compile := Regexp.compileNames
  current name hname := (compileNames_current name).trans (compileName_plain _ hname)
  rotated name hname := (compileNames_rotated name).trans (compileName_plain _ hname)
  invalid name hname :=
    (compileNames_current name).trans (compileName_unreadable _ (Or.inl hname))
  broken name hname := (compileNames_current name).trans (compileName_unreadable _ (Or.inr hname))
  matchless name hname :=
    ⟨(compileNames_current name).trans (compileName_matchless _ hname),
      (compileNames_rotated name).trans (compileName_matchless _ hname)⟩

end YcAgent.Capture.GCRecognition
