import YcAgent.Base.Decimal
import YcAgent.Base.Split
import Mathlib.Data.List.TakeWhile

/-!
# The query of an address

`url.Parse` cuts the fragment off, then the query, and refuses control bytes; what it makes of
the part before the query is a parameter. A query is split at ampersands and each part at its
first equals sign; a part with a semicolon or a bad escape is dropped.

A value comes back as it was written when all of its bytes stand for themselves, and no other
text that starts the value can bring it back, since reading never makes a text longer.
-/
namespace Go.Url

open Text

def hash : Byte := 35
def percent : Byte := 37
def ampersand : Byte := 38
def plus : Byte := 43
def semicolon : Byte := 59
def equals : Byte := 61
def question : Byte := 63

/-- `strings.Cut` on a separator of one byte, without whether it was found. -/
def cut (s : GoString) (sep : Byte) : GoString × GoString :=
  (s.takeWhile (· != sep), (s.dropWhile (· != sep)).tail)

def isCTL (b : Byte) : Bool := b < 32 || b = 127

def unhex (c : Byte) : Option Byte :=
  if 48 ≤ c ∧ c ≤ 57 then some (c - 48)
  else if 97 ≤ c ∧ c ≤ 102 then some (c - 97 + 10)
  else if 65 ≤ c ∧ c ≤ 70 then some (c - 65 + 10)
  else none

/-- `url.QueryUnescape`. -/
def queryUnescape : GoString → Option GoString
  | [] => some []
  | b :: t =>
    if b = percent then
      match t with
      | high :: low :: t =>
        match unhex high, unhex low with
        | some high, some low => (queryUnescape t).map ((high <<< 4 ||| low) :: ·)
        | _, _ => none
      | _ => none
    else (queryUnescape t).map ((if b = plus then space else b) :: ·)

/-- One part of a query, if it is not dropped. -/
def parsePair (key : GoString) : Option (GoString × GoString) :=
  if semicolon ∈ key ∨ key = [] then none
  else
    match queryUnescape (cut key equals).1, queryUnescape (cut key equals).2 with
    | some key, some value => some (key, value)
    | _, _ => none

/-- `url.ParseQuery`, as the pairs in their order. -/
def parseQuery (query : GoString) : List (GoString × GoString) :=
  (split query ampersand).filterMap parsePair

/-- The values of a key. -/
def values (q : List (GoString × GoString)) (key : GoString) : List GoString :=
  q.filterMap fun p => if p.1 = key then some p.2 else none

/-- `Values.Get`. -/
def get (q : List (GoString × GoString)) (key : GoString) : GoString := (values q key).headD []

/-- The query of `url.Parse`; a fragment is unescaped too. -/
def parse (front : GoString → Bool) (rawURL : GoString) : Option GoString :=
  let u := (cut rawURL hash).1
  let frag := (cut rawURL hash).2
  if u.any isCTL then none
  else if front (cut u question).1 && (queryUnescape frag).isSome then
    some (cut u question).2
  else none

def query (front : GoString → Bool) (rawURL : GoString) : Option (List (GoString × GoString)) :=
  (parse front rawURL).map parseQuery

/-! ## Cutting -/

section Cut

variable {s t : GoString} {sep : Byte}

theorem bne_of_not_mem (h : sep ∉ s) : ∀ b ∈ s, (b != sep) = true := by
  intro b hb
  rw [bne_iff_ne]
  rintro rfl
  exact h hb

theorem cut_of_not_mem (h : sep ∉ s) : cut s sep = (s, []) := by
  have hall := bne_of_not_mem h
  rw [cut, List.takeWhile_eq_self_iff.mpr hall, List.dropWhile_eq_nil_iff.mpr hall]
  rfl

theorem cut_append_cons (h : sep ∉ s) : cut (s ++ sep :: t) sep = (s, t) := by
  have hall := bne_of_not_mem h
  rw [cut, List.takeWhile_append_of_pos hall, List.dropWhile_append_of_pos hall]
  simp

theorem cut_append_right (h : sep ∉ s) :
    cut (s ++ t) sep = (s ++ (cut t sep).1, (cut t sep).2) := by
  have hall := bne_of_not_mem h
  rw [cut, List.takeWhile_append_of_pos hall, List.dropWhile_append_of_pos hall]
  rfl

theorem cut_append_left (h : sep ∈ s) :
    cut (s ++ t) sep = ((cut s sep).1, (cut s sep).2 ++ t) := by
  obtain ⟨u, v, rfl, hu⟩ := List.eq_append_cons_of_mem h
  rw [List.append_assoc, List.cons_append, cut_append_cons hu, cut_append_cons hu]

theorem cut_fst_prefix (s : GoString) (sep : Byte) : (cut s sep).1 <+: s :=
  List.takeWhile_prefix _

theorem not_mem_cut_fst (s : GoString) (sep : Byte) : sep ∉ (cut s sep).1 := by
  intro h
  have hne := List.mem_takeWhile_imp h
  rw [bne_self_eq_false] at hne
  cases hne

theorem length_cut (s : GoString) (sep : Byte) :
    (cut s sep).1.length + (cut s sep).2.length ≤ s.length ∧
      ((cut s sep).2 ≠ [] → (cut s sep).1.length + 1 + (cut s sep).2.length = s.length) := by
  have hsum := congrArg List.length (List.takeWhile_append_dropWhile (p := (· != sep)) (l := s))
  rw [List.length_append] at hsum
  unfold cut
  dsimp only
  rw [List.length_tail]
  refine ⟨by omega, fun hne => ?_⟩
  have hpos : 0 < (s.dropWhile (· != sep)).length := by
    rw [List.length_pos_iff]
    rintro hnil
    rw [hnil] at hne
    exact hne rfl
  omega

end Cut

/-! ## Unescaping -/

theorem queryUnescape_percent {t v : GoString} (h : queryUnescape (percent :: t) = some v) :
    ∃ high low rest b w, t = high :: low :: rest ∧ queryUnescape rest = some w ∧ v = b :: w := by
  unfold queryUnescape at h
  rw [if_pos rfl] at h
  match t with
  | [] => cases h
  | [_] => cases h
  | high :: low :: rest =>
    dsimp only at h
    cases hhigh : unhex high with
    | none => rw [hhigh] at h; cases h
    | some x =>
      cases hlow : unhex low with
      | none => rw [hhigh, hlow] at h; cases h
      | some y =>
        rw [hhigh, hlow] at h
        obtain ⟨w, hw, rfl⟩ := Option.map_eq_some_iff.mp h
        exact ⟨high, low, rest, _, w, rfl, hw, rfl⟩

theorem queryUnescape_cons {b : Byte} (hb : b ≠ percent) (t : GoString) :
    queryUnescape (b :: t) = (queryUnescape t).map ((if b = plus then space else b) :: ·) := by
  conv_lhs => unfold queryUnescape
  rw [if_neg hb]

theorem queryUnescape_percent_cons (high low : Byte) (t : GoString) :
    queryUnescape (percent :: high :: low :: t) =
      match unhex high, unhex low with
      | some high, some low => (queryUnescape t).map ((high <<< 4 ||| low) :: ·)
      | _, _ => none := by
  conv_lhs => unfold queryUnescape
  rw [if_pos rfl]

/-- A byte that is part of no escape splits a text into two that are read one by one. -/
theorem isSome_queryUnescape_append {c : Byte} (hc : unhex c = none) (hpercent : c ≠ percent)
    (s t : GoString) : (queryUnescape (s ++ c :: t)).isSome =
      ((queryUnescape s).isSome && (queryUnescape t).isSome) := by
  have hsep : (queryUnescape (c :: t)).isSome = (queryUnescape t).isSome := by
    rw [queryUnescape_cons hpercent, Option.isSome_map]
  induction hn : s.length using Nat.strong_induction_on generalizing s with
  | _ n ih =>
    cases s with
    | nil => exact hsep
    | cons b s =>
      by_cases hb : b = percent
      · subst hb
        match s with
        | [] =>
          have hleft : queryUnescape [percent] = none := rfl
          rw [hleft]
          cases t with
          | nil => rfl
          | cons d t =>
            show (queryUnescape (percent :: c :: d :: t)).isSome = _
            rw [queryUnescape_percent_cons, hc]
            rfl
        | [high] =>
          have hleft : queryUnescape [percent, high] = none := rfl
          rw [hleft]
          show (queryUnescape (percent :: high :: c :: t)).isSome = _
          rw [queryUnescape_percent_cons, hc]
          cases unhex high <;> rfl
        | high :: low :: s =>
          show (queryUnescape (percent :: high :: low :: (s ++ c :: t))).isSome = _
          have hrest := ih s.length (by simp only [List.length_cons] at hn; omega) s rfl
          rw [queryUnescape_percent_cons, queryUnescape_percent_cons]
          cases unhex high with
          | none => rfl
          | some x =>
            cases unhex low with
            | none => rfl
            | some y =>
              dsimp only
              rw [Option.isSome_map, Option.isSome_map, hrest]
      · have hrest := ih s.length (by rw [List.length_cons] at hn; omega) s rfl
        rw [List.cons_append, queryUnescape_cons hb, queryUnescape_cons hb, Option.isSome_map,
          Option.isSome_map, hrest]

/-- Reading never makes a text longer. -/
theorem length_queryUnescape_le {s v : GoString} (h : queryUnescape s = some v) :
    v.length ≤ s.length := by
  induction hn : s.length using Nat.strong_induction_on generalizing s v with
  | _ n ih =>
    cases s with
    | nil =>
      cases h
      exact Nat.zero_le _
    | cons b t =>
      rw [List.length_cons] at hn
      by_cases hb : b = percent
      · subst hb
        obtain ⟨high, low, rest, c, w, rfl, hw, rfl⟩ := queryUnescape_percent h
        simp only [List.length_cons] at hn ⊢
        have hle := ih rest.length (by omega) hw rfl
        omega
      · rw [queryUnescape_cons hb] at h
        obtain ⟨w, hw, rfl⟩ := Option.map_eq_some_iff.mp h
        have hle := ih t.length (by omega) hw rfl
        rw [List.length_cons]
        omega

theorem queryUnescape_of_not_mem {s : GoString} (hpercent : percent ∉ s) (hplus : plus ∉ s) :
    queryUnescape s = some s := by
  induction s with
  | nil => rfl
  | cons b t ih =>
    have hb : b ≠ percent := fun h => hpercent (h ▸ List.mem_cons_self)
    have hb' : b ≠ plus := fun h => hplus (h ▸ List.mem_cons_self)
    have ht := ih (fun h => hpercent (List.mem_cons_of_mem _ h))
      (fun h => hplus (List.mem_cons_of_mem _ h))
    rw [queryUnescape_cons hb, ht, Option.map_some, if_neg hb']

/-- A text that is read as itself has no escapes. -/
theorem not_mem_of_queryUnescape_self {s : GoString} (h : queryUnescape s = some s) :
    percent ∉ s ∧ plus ∉ s := by
  induction s with
  | nil => exact ⟨List.not_mem_nil, List.not_mem_nil⟩
  | cons b t ih =>
    by_cases hb : b = percent
    · subst hb
      obtain ⟨high, low, rest, c, w, rfl, hw, heq⟩ := queryUnescape_percent h
      have hle := length_queryUnescape_le hw
      have hlength := congrArg List.length heq
      simp only [List.length_cons] at hlength
      omega
    · rw [queryUnescape_cons hb] at h
      obtain ⟨w, hw, heq⟩ := Option.map_eq_some_iff.mp h
      obtain ⟨hhead, rfl⟩ := List.cons.inj heq
      have hplus : b ≠ plus := by
        rintro rfl
        rw [if_pos rfl] at hhead
        revert hhead
        decide
      obtain ⟨hpercent', hplus'⟩ := ih hw
      exact ⟨List.not_mem_cons_of_ne_of_not_mem (Ne.symm hb) hpercent',
        List.not_mem_cons_of_ne_of_not_mem (Ne.symm hplus) hplus'⟩

/-! ## Parameters -/

/-- Every byte stands for itself. -/
def Literal (s : GoString) : Prop :=
  ampersand ∉ s ∧ semicolon ∉ s ∧ percent ∉ s ∧ plus ∉ s

instance (s : GoString) : Decidable (Literal s) := inferInstanceAs (Decidable (_ ∧ _))

theorem literal_iff_forall (s : GoString) :
    Literal s ↔ ∀ b ∈ s, b ≠ ampersand ∧ b ≠ semicolon ∧ b ≠ percent ∧ b ≠ plus := by
  unfold Literal
  constructor
  · intro h b hb
    refine ⟨?_, ?_, ?_, ?_⟩ <;> rintro rfl
    · exact h.1 hb
    · exact h.2.1 hb
    · exact h.2.2.1 hb
    · exact h.2.2.2 hb
  · intro h
    exact ⟨fun hb => (h _ hb).1 rfl, fun hb => (h _ hb).2.1 rfl, fun hb => (h _ hb).2.2.1 rfl,
      fun hb => (h _ hb).2.2.2 rfl⟩

theorem Literal.queryUnescape {s : GoString} (h : Literal s) : queryUnescape s = some s :=
  queryUnescape_of_not_mem h.2.2.1 h.2.2.2

theorem parseQuery_append (s t : GoString) :
    parseQuery (s ++ ampersand :: t) = parseQuery s ++ parseQuery t := by
  rw [parseQuery, split, List.splitOn_append_cons_self, List.filterMap_append]
  rfl

theorem parseQuery_of_not_mem {s : GoString} (h : ampersand ∉ s) :
    parseQuery s = (parsePair s).toList := by
  rw [parseQuery, split, List.splitOn_eq_singleton h]
  cases hpair : parsePair s with
  | none => simp [hpair]
  | some p => simp [hpair]

theorem length_parsePair {part key value : GoString} (h : parsePair part = some (key, value)) :
    value ≠ [] → key.length + 1 + value.length ≤ part.length := by
  intro hne
  unfold parsePair at h
  split at h
  · cases h
  obtain ⟨-, hlength⟩ := length_cut part equals
  cases hkey : queryUnescape (cut part equals).1 with
  | none => rw [hkey] at h; cases h
  | some k =>
    cases hvalue : queryUnescape (cut part equals).2 with
    | none => rw [hkey, hvalue] at h; cases h
    | some v =>
      rw [hkey, hvalue] at h
      obtain ⟨rfl, rfl⟩ := Prod.mk.inj (Option.some.inj h)
      have hkeyle := length_queryUnescape_le hkey
      have hvaluele := length_queryUnescape_le hvalue
      have hvaluene : (cut part equals).2 ≠ [] := by
        intro hnil
        rw [hnil] at hvalue
        cases hvalue
        exact hne rfl
      have hsum := hlength hvaluene
      omega

section Param

variable {key value text : GoString}

/-- A key that stands for itself, and is cut off at the first equals sign. -/
def IsKey (key : GoString) : Prop := Literal key ∧ equals ∉ key

instance (key : GoString) : Decidable (IsKey key) := inferInstanceAs (Decidable (_ ∧ _))

theorem parsePair_param (hkey : IsKey key) :
    parsePair (key ++ equals :: value) =
      if semicolon ∈ value then none else (queryUnescape value).map (key, ·) := by
  have hne : key ++ equals :: value ≠ [] := by simp
  have hcut : cut (key ++ equals :: value) equals = (key, value) := cut_append_cons hkey.2
  have hmem : semicolon ∈ key ++ equals :: value ↔ semicolon ∈ value := by
    have hequals : semicolon ≠ equals := by decide
    simp [hkey.1.2.1, hequals]
  unfold parsePair
  rw [hcut, hkey.1.queryUnescape]
  simp only [hmem, hne, or_false]
  cases queryUnescape value <;> rfl

theorem parseQuery_param (hkey : IsKey key) (hvalue : Literal value) :
    parseQuery (key ++ equals :: value) = [(key, value)] := by
  have hmem : ampersand ∉ key ++ equals :: value := by
    have hequals : ampersand ≠ equals := by decide
    simp [hkey.1.1, hvalue.1, hequals]
  rw [parseQuery_of_not_mem hmem, parsePair_param hkey, if_neg hvalue.2.1, hvalue.queryUnescape]
  rfl

/-- A value ends at the first ampersand; behind it are parameters of their own. -/
theorem parseQuery_text (hkey : IsKey key) (text : GoString) :
    parseQuery (key ++ equals :: text) =
      (if semicolon ∈ (cut text ampersand).1 then none
        else queryUnescape (cut text ampersand).1).toList.map (key, ·) ++
        parseQuery (cut text ampersand).2 := by
  have hvalue : ∀ value, ampersand ∉ value → parseQuery (key ++ equals :: value) =
      (if semicolon ∈ value then none else queryUnescape value).toList.map (key, ·) := by
    intro value hamp
    have hmem : ampersand ∉ key ++ equals :: value := by
      have hequals : ampersand ≠ equals := by decide
      simp [hkey.1.1, hamp, hequals]
    rw [parseQuery_of_not_mem hmem, parsePair_param hkey]
    split
    · rfl
    · cases queryUnescape value <;> rfl
  by_cases hamp : ampersand ∈ text
  · obtain ⟨value, rest, rfl, hfront⟩ := List.eq_append_cons_of_mem hamp
    rw [cut_append_cons hfront, ← hvalue value hfront, ← parseQuery_append, List.append_assoc,
      List.cons_append]
  · rw [cut_of_not_mem hamp, hvalue text hamp]
    exact (List.append_nil _).symm

theorem key_of_mem_parseQuery_param (hkey : IsKey key) (hvalue : ampersand ∉ value)
    {p : GoString × GoString} (hp : p ∈ parseQuery (key ++ equals :: value)) : p.1 = key := by
  have hmem : ampersand ∉ key ++ equals :: value := by
    have hequals : ampersand ≠ equals := by decide
    simp [hkey.1.1, hvalue, hequals]
  rw [parseQuery_of_not_mem hmem, Option.mem_toList, parsePair_param hkey] at hp
  split at hp
  · cases hp
  · obtain ⟨v, -, rfl⟩ := Option.map_eq_some_iff.mp hp
    rfl

/-- If the start of a value brings back the value, it is all of it and every byte stands for
itself. -/
theorem literal_of_mem_parseQuery (hkey : IsKey key) (hstart : text <+: value)
    (hmem : (key, value) ∈ parseQuery (key ++ equals :: text)) :
    text = value ∧ Literal value := by
  by_cases hne : value = []
  · subst hne
    obtain rfl := List.prefix_nil.mp hstart
    exact ⟨rfl, by decide⟩
  · obtain ⟨part, hpart, hpair⟩ := List.mem_filterMap.mp hmem
    have hlong := length_parsePair hpair hne
    have hwhole : (key ++ equals :: text).length = key.length + 1 + text.length := by
      rw [List.length_append, List.length_cons]
      omega
    have hle := hstart.length_le
    have hamp : ampersand ∉ key ++ equals :: text := by
      intro hin
      have hlt := length_lt_of_mem_splitOn hin hpart
      omega
    rw [split, List.splitOn_eq_singleton hamp, List.mem_singleton] at hpart
    subst hpart
    obtain rfl : text = value := hstart.eq_of_length (by omega)
    rw [parsePair_param hkey] at hpair
    split at hpair
    · cases hpair
    · rename_i hsemicolon
      obtain ⟨v, hv, heq⟩ := Option.map_eq_some_iff.mp hpair
      obtain rfl := (Prod.mk.inj heq).2
      obtain ⟨hpercent, hplus⟩ := not_mem_of_queryUnescape_self hv
      have hamp' : ampersand ∉ v := fun h =>
        hamp (List.mem_append_right _ (List.mem_cons_of_mem _ h))
      exact ⟨rfl, hamp', hsemicolon, hpercent, hplus⟩

end Param

section Values

variable {q q' : List (GoString × GoString)} {key value : GoString}

theorem values_append (q q' : List (GoString × GoString)) (key : GoString) :
    values (q ++ q') key = values q key ++ values q' key :=
  List.filterMap_append

theorem mem_values_iff : value ∈ values q key ↔ (key, value) ∈ q := by
  unfold values
  rw [List.mem_filterMap]
  constructor
  · intro h
    obtain ⟨⟨k, v⟩, hmem, hif⟩ := h
    split at hif
    · rename_i hk
      obtain rfl : k = key := hk
      obtain rfl := Option.some.inj hif
      exact hmem
    · cases hif
  · intro h
    exact ⟨(key, value), h, if_pos rfl⟩

theorem values_eq_nil (h : ∀ p ∈ q, p.1 ≠ key) : values q key = [] := by
  refine List.eq_nil_iff_forall_not_mem.mpr fun v hv => ?_
  exact h _ (mem_values_iff.mp hv) rfl

theorem eq_nil_or_mem_of_get (h : get q key = value) : value = [] ∨ (key, value) ∈ q := by
  unfold get at h
  cases hvalues : values q key with
  | nil =>
    rw [hvalues] at h
    exact Or.inl h.symm
  | cons v vs =>
    rw [hvalues] at h
    obtain rfl : v = value := h
    exact Or.inr (mem_values_iff.mp (hvalues ▸ List.mem_cons_self))

end Values

/-! ## Appending to an address -/

/-- Nothing in a text ends the query of an address or makes the address invalid. -/
def Clean (s : GoString) : Prop := hash ∉ s ∧ s.any isCTL = false

instance (s : GoString) : Decidable (Clean s) := inferInstanceAs (Decidable (_ ∧ _))

theorem clean_iff_forall (s : GoString) : Clean s ↔ ∀ b ∈ s, b ≠ hash ∧ isCTL b = false := by
  unfold Clean
  rw [List.any_eq_false]
  constructor
  · intro h b hb
    exact ⟨fun heq => h.1 (heq ▸ hb), Bool.eq_false_iff.mpr (h.2 b hb)⟩
  · intro h
    exact ⟨fun hb => (h _ hb).1 rfl, fun b hb => Bool.eq_false_iff.mp (h b hb).2⟩

theorem clean_append (s t : GoString) : Clean (s ++ t) ↔ Clean s ∧ Clean t := by
  unfold Clean
  rw [List.mem_append, List.any_append, Bool.or_eq_false_iff]
  tauto

/-- A byte that ends neither its parameter nor the query. -/
def Inside (b : Byte) : Prop := b ≠ ampersand ∧ b ≠ hash ∧ isCTL b = false

instance : DecidablePred Inside := fun _ => inferInstanceAs (Decidable (_ ∧ _))

theorem ampersand_not_mem {s : GoString} (h : ∀ b ∈ s, Inside b) : ampersand ∉ s :=
  fun hb => (h ampersand hb).1 rfl

theorem clean_of_inside {s : GoString} (h : ∀ b ∈ s, Inside b) : Clean s :=
  (clean_iff_forall s).mpr fun b hb => (h b hb).2

theorem inside_itoa (n : Int) : ∀ b ∈ itoa n, Inside b := by
  intro b hb
  rcases itoa_bytes b hb with ⟨hlow, hhigh⟩ | rfl
  · have hlow' : 48 ≤ b.toNat := UInt8.le_iff_toNat_le.mp hlow
    refine ⟨?_, ?_, ?_⟩
    · rintro rfl
      exact absurd hlow (by decide)
    · rintro rfl
      exact absurd hlow (by decide)
    · have hhigh' : b.toNat ≤ 57 := UInt8.le_iff_toNat_le.mp hhigh
      unfold isCTL
      rw [Bool.or_eq_false_iff, decide_eq_false_iff_not, decide_eq_false_iff_not,
        UInt8.lt_iff_toNat_lt]
      refine ⟨Nat.not_lt.mpr (Nat.le_trans (by decide) hlow'), ?_⟩
      rintro rfl
      exact absurd hhigh' (by decide)
  · decide

theorem literal_itoa (n : Int) : Literal (itoa n) :=
  ⟨not_mem_itoa (by decide) (by decide) n, not_mem_itoa (by decide) (by decide) n,
    not_mem_itoa (by decide) (by decide) n, not_mem_itoa (by decide) (by decide) n⟩

/-- An address without a fragment. -/
theorem parse_of_clean {front : GoString → Bool} {before s : GoString} (hbefore : Clean before)
    (hquestion : question ∉ before) (hfront : front before = true) (hs : Clean s) :
    parse front (before ++ question :: s) = some s := by
  have hall : Clean (before ++ question :: s) := by
    have hmark : Clean [question] := by decide
    exact (clean_append _ _).mpr ⟨hbefore, (clean_append [question] s).mpr ⟨hmark, hs⟩⟩
  unfold parse
  rw [cut_of_not_mem hall.1]
  dsimp only
  rw [hall.2, cut_append_cons hquestion, hfront]
  rfl

/-- What is appended to an address that has a query and no fragment goes to its query, as far
as a number sign. -/
theorem parse_append {front : GoString → Bool} {u raw : GoString} (hhash : hash ∉ u)
    (hquestion : question ∈ u) (h : parse front u = some raw) (t : GoString) :
    parse front (u ++ t) =
      if (cut t hash).1.any isCTL || (queryUnescape (cut t hash).2).isNone then none
      else some (raw ++ (cut t hash).1) := by
  unfold parse at h ⊢
  rw [cut_of_not_mem hhash] at h
  rw [cut_append_right hhash]
  dsimp only at h ⊢
  split at h
  · cases h
  rename_i hctl
  split at h
  · rename_i hfront
    obtain rfl := Option.some.inj h
    have hfront' : front (cut u question).1 = true := (Bool.and_eq_true_iff.mp hfront).1
    have hctl' : u.any isCTL = false := Bool.eq_false_iff.mpr hctl
    rw [List.any_append, hctl', Bool.false_or, cut_append_left hquestion]
    dsimp only
    rw [hfront', Bool.true_and]
    cases (cut t hash).1.any isCTL <;> cases queryUnescape (cut t hash).2 <;> rfl
  · cases h

/-- What is appended to an address with a fragment does not reach its query. -/
theorem parse_append_of_hash {front : GoString → Bool} {u t raw raw' : GoString}
    (hhash : hash ∈ u) (hu : parse front u = some raw) (ht : parse front (u ++ t) = some raw') :
    raw' = raw := by
  unfold parse at hu ht
  rw [cut_append_left hhash] at ht
  dsimp only at hu ht
  split at hu
  · cases hu
  rename_i hctl
  rw [if_neg hctl] at ht
  split at hu
  · split at ht
    · exact (Option.some.inj ht).symm.trans (Option.some.inj hu)
    · cases ht
  · cases hu

theorem isSome_parse_iff (front : GoString → Bool) (u : GoString) :
    (parse front u).isSome ↔ (cut u hash).1.any isCTL = false ∧
      front (cut (cut u hash).1 question).1 = true ∧ (queryUnescape (cut u hash).2).isSome := by
  unfold parse
  dsimp only
  cases (cut u hash).1.any isCTL with
  | true => exact iff_of_false Bool.false_ne_true fun h => Bool.false_ne_true h.1.symm
  | false =>
    rw [if_neg Bool.false_ne_true, and_iff_right rfl, ← Bool.and_eq_true]
    cases front (cut (cut u hash).1 question).1 && (queryUnescape (cut u hash).2).isSome <;> simp

/-- Text behind an ampersand is in the fragment of an address that has one, and else in its
query, as far as a number sign of its own. -/
def Appendable (u t : GoString) : Prop :=
  if hash ∈ u then (queryUnescape t).isSome = true
  else (cut t hash).1.any isCTL = false ∧ (queryUnescape (cut t hash).2).isSome

instance (u t : GoString) : Decidable (Appendable u t) := by
  unfold Appendable
  infer_instance

theorem isSome_parse_append (front : GoString → Bool) {u : GoString} (hquestion : question ∈ u)
    (t : GoString) :
    (parse front (u ++ ampersand :: t)).isSome ↔ (parse front u).isSome ∧ Appendable u t := by
  rw [isSome_parse_iff, isSome_parse_iff, Appendable]
  by_cases hhash : hash ∈ u
  · have hhex : unhex ampersand = none ∧ ampersand ≠ percent := by decide
    rw [cut_append_left hhash, if_pos hhash]
    dsimp only
    rw [isSome_queryUnescape_append hhex.1 hhex.2, Bool.and_eq_true]
    tauto
  · have hamp : hash ∉ [ampersand] := by decide
    have hcut : cut (ampersand :: t) hash = (ampersand :: (cut t hash).1, (cut t hash).2) :=
      cut_append_right hamp
    have hctl : isCTL ampersand = false := by decide
    have hnil : (queryUnescape []).isSome = true := rfl
    rw [cut_append_right hhash, cut_of_not_mem hhash, if_neg hhash, hcut]
    dsimp only
    rw [cut_append_left hquestion, List.any_append, List.any_cons, hctl, Bool.false_or,
      Bool.or_eq_false_iff, hnil]
    tauto

/-- What a query is behind such a text. -/
theorem query_append_text (front : GoString → Bool) {u : GoString} (hquestion : question ∈ u)
    {q : List (GoString × GoString)} (hu : query front u = some q) (t : GoString) :
    query front (u ++ ampersand :: t) =
      if Appendable u t then
        some (q ++ if hash ∈ u then [] else parseQuery (cut t hash).1)
      else none := by
  obtain ⟨raw, hraw, rfl⟩ := Option.map_eq_some_iff.mp hu
  have hsome := isSome_parse_append front hquestion t
  rw [hraw, Option.isSome_some, and_iff_right rfl] at hsome
  cases hparse : parse front (u ++ ampersand :: t) with
  | none =>
    rw [hparse] at hsome
    rw [query, hparse, if_neg fun h => Bool.false_ne_true (hsome.mpr h)]
    rfl
  | some raw' =>
    rw [hparse] at hsome
    rw [query, hparse, if_pos (hsome.mp rfl)]
    by_cases hhash : hash ∈ u
    · rw [parse_append_of_hash hhash hraw hparse, if_pos hhash, List.append_nil]
      rfl
    · have hamp : hash ∉ [ampersand] := by decide
      have hcut : cut (ampersand :: t) hash = (ampersand :: (cut t hash).1, (cut t hash).2) :=
        cut_append_right hamp
      rw [parse_append hhash hquestion hraw, hcut] at hparse
      dsimp only at hparse
      split at hparse
      · cases hparse
      · obtain rfl := Option.some.inj hparse
        rw [if_neg hhash, Option.map_some, parseQuery_append]

section Append

variable {front : GoString → Bool} {u raw key value : GoString} {more : List GoString}

/-- Further parameters, each behind an ampersand. -/
def appended (more : List GoString) : GoString := more.flatMap (ampersand :: ·)

theorem appended_singleton (m : GoString) : appended [m] = ampersand :: m := by
  rw [appended, List.flatMap_singleton]

theorem parseQuery_appended (s : GoString) (more : List GoString) :
    parseQuery (s ++ appended more) = parseQuery s ++ more.flatMap parseQuery := by
  induction more generalizing s with
  | nil => simp [appended]
  | cons m more ih =>
    have hcons : s ++ appended (m :: more) = s ++ ampersand :: m ++ appended more := by
      simp [appended]
    rw [hcons, ih, parseQuery_append, List.append_assoc, List.flatMap_cons]

theorem clean_appended (h : ∀ m ∈ more, Clean m) : Clean (appended more) := by
  have hamp : ampersand ≠ hash ∧ isCTL ampersand = false := by decide
  rw [clean_iff_forall, appended]
  intro b hb
  obtain ⟨m, hm, hb⟩ := List.mem_flatMap.mp hb
  rcases List.mem_cons.mp hb with rfl | hb
  · exact hamp
  · exact (clean_iff_forall m).mp (h m hm) b hb

theorem query_append (hhash : hash ∉ u) (hquestion : question ∈ u)
    (hu : parse front u = some raw) {t : GoString} (ht : Clean t) :
    query front (u ++ ampersand :: t) = some (parseQuery raw ++ parseQuery t) := by
  have hamp : Clean [ampersand] := by decide
  have hclean : Clean (ampersand :: t) := (clean_append [ampersand] t).mpr ⟨hamp, ht⟩
  rw [query, parse_append hhash hquestion hu, cut_of_not_mem hclean.1]
  dsimp only
  rw [hclean.2, ← parseQuery_append]
  rfl

/-- An address that can be parsed with a parameter in it has a clean value there, or is cut off
in the value. -/
theorem query_param (hhash : hash ∉ u) (hquestion : question ∈ u)
    (hu : parse front u = some raw) (hkey : Clean key) (hmore : ∀ m ∈ more, Clean m)
    {q : List (GoString × GoString)}
    (h : query front (u ++ ampersand :: (key ++ equals :: (value ++ appended more))) = some q) :
    ∃ text rest, q = parseQuery raw ++ (parseQuery (key ++ equals :: text) ++ rest) ∧
      text <+: value ∧ (∀ p ∈ rest, p ∈ more.flatMap parseQuery) ∧
      (text = value → Clean value) := by
  have hhead : Clean (ampersand :: key ++ [equals]) := by
    have hamp : Clean [ampersand] ∧ Clean [equals] := by decide
    rw [clean_append]
    exact ⟨(clean_append [ampersand] key).mpr ⟨hamp.1, hkey⟩, hamp.2⟩
  have hsplit : ampersand :: (key ++ equals :: (value ++ appended more)) =
      (ampersand :: key ++ [equals]) ++ (value ++ appended more) := by
    simp only [List.append_assoc, List.cons_append, List.nil_append]
  rw [query, parse_append hhash hquestion hu, hsplit, cut_append_right hhead.1] at h
  dsimp only at h
  split at h
  · cases h
  rename_i hok
  have hctl : (cut (value ++ appended more) hash).1.any isCTL = false := by
    rw [Bool.or_eq_true, not_or, Bool.not_eq_true, List.any_append, Bool.or_eq_false_iff] at hok
    exact hok.1.2
  have hstart (text : GoString) : parseQuery (raw ++ (ampersand :: key ++ [equals] ++ text)) =
      parseQuery raw ++ parseQuery (key ++ equals :: text) := by
    rw [← parseQuery_append]
    simp only [List.append_assoc, List.cons_append, List.nil_append]
  obtain rfl := Option.some.inj h
  rw [hstart]
  by_cases hvalue : hash ∈ value
  · rw [cut_append_left hvalue]
    refine ⟨(cut value hash).1, [], by rw [List.append_nil], cut_fst_prefix _ _,
      fun p hp => absurd hp List.not_mem_nil, fun heq => ?_⟩
    have hnot := not_mem_cut_fst value hash
    rw [heq] at hnot
    exact absurd hvalue hnot
  · have hwhole : hash ∉ value ++ appended more := fun hmem =>
      (List.mem_append.mp hmem).elim hvalue (clean_appended hmore).1
    rw [cut_of_not_mem hwhole] at hctl ⊢
    refine ⟨value, more.flatMap parseQuery, ?_, List.prefix_rfl, fun p hp => hp, fun _ => ?_⟩
    · rw [← parseQuery_appended, List.append_assoc, List.cons_append]
    · rw [List.any_append, Bool.or_eq_false_iff] at hctl
      exact ⟨hvalue, hctl.1⟩

theorem query_param_of_clean (hhash : hash ∉ u) (hquestion : question ∈ u)
    (hu : parse front u = some raw) (hkey : Clean key) (hmore : ∀ m ∈ more, Clean m)
    (hvalue : Clean value) :
    query front (u ++ ampersand :: (key ++ equals :: (value ++ appended more))) =
      some (parseQuery raw ++ (parseQuery (key ++ equals :: value) ++
        more.flatMap parseQuery)) := by
  have hequals : Clean [equals] := by decide
  have hparam : Clean (key ++ equals :: (value ++ appended more)) :=
    (clean_append key _).mpr ⟨hkey, (clean_append [equals] _).mpr
      ⟨hequals, (clean_append _ _).mpr ⟨hvalue, clean_appended hmore⟩⟩⟩
  have hassoc : key ++ equals :: (value ++ appended more) =
      key ++ equals :: value ++ appended more := by
    rw [List.append_assoc, List.cons_append]
  rw [query_append hhash hquestion hu hparam, hassoc, parseQuery_appended]

end Append

end Go.Url
