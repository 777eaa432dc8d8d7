import YcAgent.Base.Glob
import YcAgent.Capture.GCTemplate

/-!
# The paths a template can become

A JVM expands each token of the template, and the pattern has to match whatever it writes.
The pattern is put together piece by piece as long as the template names the process at
most once in either way.
-/
namespace YcAgent.Capture

open Go

/-! ## Expansions -/

def Digits (n : Nat) (x : GoString) : Prop := x.length = n ∧ ∀ b ∈ x, IsDigit b

instance (n : Nat) (x : GoString) : Decidable (Digits n x) := inferInstanceAs (Decidable (_ ∧ _))

/-- `YYYY-MM-DD_HH-MM-SS`. -/
def Timestamp (x : GoString) : Prop :=
  ∃ Y m d H M S, Digits 4 Y ∧ Digits 2 m ∧ Digits 2 d ∧ Digits 2 H ∧ Digits 2 M ∧ Digits 2 S ∧
    x = Y ++ str "-" ++ m ++ str "-" ++ d ++ str "_" ++ H ++ str "-" ++ M ++ str "-" ++ S

/-- What a JVM with this process id writes for a piece. -/
def Expansion (pid : Int) : Piece → GoString → Prop
  | .lit b, x => x = [b]
  | .tok .pid, x => x = itoa pid
  | .tok .p, x => x = itoa pid ∨ x = str "pid" ++ itoa pid
  | .tok .t, x => Timestamp x
  | .tok .seq, x => ∃ a b c, Character a ∧ Character b ∧ Character c ∧ x = a ++ b ++ c
  | .tok .tick, x => slash ∉ x
  | .tok .uid, x => slash ∉ x
  | .tok .last, x => slash ∉ x
  | .tok .Y, x => Digits 4 x
  | .tok .y, x => Digits 2 x
  | .tok .m, x => Digits 2 x
  | .tok .d, x => Digits 2 x
  | .tok .H, x => Digits 2 x
  | .tok .M, x => Digits 2 x
  | .tok .S, x => Digits 2 x

def Expands (pid : Int) : List Piece → GoString → Prop
  | [], path => path = []
  | pc :: ps, path => ∃ x rest, path = x ++ rest ∧ Expansion pid pc x ∧ Expands pid ps rest

/-- Every path the template can become matches its pattern. -/
def Covered (t : Template) (pid : Int) : Prop :=
  ∀ path, Expands pid t.pieces path → Matches (getGlobPatternFromGCPath t.text pid) path

/-! ## The pattern, piece by piece -/

/-- What a piece becomes in the pattern. -/
def globOf (pid : Int) : Piece → GoString
  | .lit b => [b]
  | .tok .pid => itoa pid
  | .tok .p => star :: itoa pid
  | .tok .t => str "????-??-??_??-??-??"
  | .tok .seq => str "???"
  | .tok .tick => [star]
  | .tok .uid => [star]
  | .tok .last => [star]
  | .tok .Y => str "????"
  | .tok .y => str "??"
  | .tok .m => str "??"
  | .tok .d => str "??"
  | .tok .H => str "??"
  | .tok .M => str "??"
  | .tok .S => str "??"

theorem isDigit_ascii {b : Byte} (h : IsDigit b) : b < 0x80 ∧ b ≠ slash := by
  obtain ⟨hlow, hhigh⟩ := h
  unfold slash
  constructor
  · exact UInt8.lt_of_le_of_lt hhigh (by decide)
  · intro hb
    rw [hb] at hlow
    exact absurd hlow (by decide)

theorem matches_digits {n : Nat} {x pattern s : GoString} (hx : Digits n x)
    (h : Matches pattern s) :
    Matches (List.replicate n questionMark ++ pattern) (x ++ s) := by
  obtain ⟨rfl, hdigits⟩ := hx
  exact matches_characters (fun b hb => isDigit_ascii (hdigits b hb)) h

theorem matches_timestamp {x pattern s : GoString} (hx : Timestamp x) (h : Matches pattern s) :
    Matches (str "????-??-??_??-??-??" ++ pattern) (x ++ s) := by
  obtain ⟨Y, m, d, H, M, S, hY, hm, hd, hH, hM, hS, rfl⟩ := hx
  have hSecond := matches_append_self (str "-") (matches_digits hS h)
  have hMinute := matches_append_self (str "-") (matches_digits hM hSecond)
  have hHour := matches_append_self (str "_") (matches_digits hH hMinute)
  have hDay := matches_append_self (str "-") (matches_digits hd hHour)
  have hMonth := matches_append_self (str "-") (matches_digits hm hDay)
  have hYear := matches_digits hY hMonth
  simp only [List.append_assoc]
  exact hYear

/-- The pattern of a piece matches every expansion of it. -/
theorem matches_globOf {pid : Int} {pc : Piece} {x pattern s : GoString}
    (hx : Expansion pid pc x) (h : Matches pattern s) :
    Matches (globOf pid pc ++ pattern) (x ++ s) := by
  have hstar : slash ∉ x → Matches (star :: pattern) (x ++ s) :=
    fun hno => matches_star.mpr ⟨x, s, rfl, hno, h⟩
  cases pc with
  | lit b =>
    obtain rfl : x = [b] := hx
    exact matches_append_self [b] h
  | tok u =>
    cases u with
    | pid =>
      obtain rfl : x = itoa pid := hx
      exact matches_append_self (itoa pid) h
    | p =>
      have hitoa := matches_append_self (itoa pid) h
      rcases hx with rfl | rfl
      · exact matches_star.mpr ⟨[], itoa pid ++ s, rfl, List.not_mem_nil, hitoa⟩
      · exact matches_star.mpr ⟨str "pid", itoa pid ++ s, by simp, by decide, hitoa⟩
    | t => exact matches_timestamp hx h
    | seq =>
      obtain ⟨a, b, e, ha, hb, he, rfl⟩ := hx
      simp only [List.append_assoc]
      exact matches_character ha (matches_character hb (matches_character he h))
    | tick => exact hstar hx
    | uid => exact hstar hx
    | last => exact hstar hx
    | Y => exact matches_digits hx h
    | y => exact matches_digits hx h
    | m => exact matches_digits hx h
    | d => exact matches_digits hx h
    | H => exact matches_digits hx h
    | M => exact matches_digits hx h
    | S => exact matches_digits hx h

theorem matches_expands {pid : Int} {ps : List Piece} {path pattern s : GoString}
    (hpath : Expands pid ps path) (h : Matches pattern s) :
    Matches (ps.flatMap (globOf pid) ++ pattern) (path ++ s) := by
  induction ps generalizing path with
  | nil =>
    obtain rfl : path = [] := hpath
    exact h
  | cons pc ps ih =>
    obtain ⟨x, rest, rfl, hx, hrest⟩ := hpath
    rw [List.flatMap_cons, List.append_assoc, List.append_assoc]
    exact matches_globOf hx (ih hrest)

/-! ## One name for the process -/

@[simp] theorem substAll_append (u : Token) (new : GoString) (ps qs : List Piece) :
    substAll u new (ps ++ qs) = substAll u new ps ++ substAll u new qs := List.flatMap_append

theorem substAll_of_not_mem {u : Token} {ps : List Piece} (h : .tok u ∉ ps) (new : GoString) :
    substAll u new ps = ps := by
  induction ps with
  | nil => rfl
  | cons pc ps ih =>
    obtain ⟨hpc, hrest⟩ := not_or.mp (mt List.mem_cons.mpr h)
    rw [substAll, List.flatMap_cons, subst_of_ne (Ne.symm hpc)]
    exact congrArg (pc :: ·) (ih hrest)

@[simp] theorem substAll_lits (u : Token) (new w : GoString) : substAll u new (lits w) = lits w :=
  substAll_of_not_mem (tok_not_mem_lits u w) new

/-- The first occurrence is the only one. -/
theorem substFirst_eq_substAll {u : Token} {ps : List Piece} (h : ps.count (.tok u) ≤ 1)
    (new : GoString) : substFirst u new ps = substAll u new ps := by
  induction ps with
  | nil => rfl
  | cons pc ps ih =>
    rw [substFirst, substAll, List.flatMap_cons]
    by_cases hpc : pc = .tok u
    · subst hpc
      have hnone : .tok u ∉ ps := by
        rw [List.count_cons_self] at h
        exact List.count_eq_zero.mp (by omega)
      have hrest : ps.flatMap (subst u new) = ps := substAll_of_not_mem hnone new
      rw [if_pos rfl, hrest, subst, if_pos rfl]
    · rw [List.count_cons_of_ne hpc] at h
      rw [if_neg hpc, subst_of_ne hpc, ih h]
      rfl

/-- A substitution keeps the number of a piece it neither takes nor brings. -/
theorem count_substAll {u : Token} {new : GoString} {qc : Piece} (hu : qc ≠ .tok u)
    (hnew : qc ∉ lits new) (ps : List Piece) : (substAll u new ps).count qc = ps.count qc := by
  induction ps with
  | nil => rfl
  | cons pc ps ih =>
    have hsplit : substAll u new (pc :: ps) = subst u new pc ++ substAll u new ps := rfl
    rw [hsplit, List.count_append, ih]
    by_cases hpc : pc = .tok u
    · subst hpc
      rw [subst, if_pos rfl, List.count_eq_zero.mpr hnew, List.count_cons_of_ne hu.symm,
        Nat.zero_add]
    · rw [subst_of_ne hpc, ← List.count_append, List.singleton_append]

theorem openPid_of_not_mem {ps : List Piece} (h : .tok .pid ∉ ps) : ps.flatMap openPid = ps := by
  induction ps with
  | nil => rfl
  | cons pc ps ih =>
    obtain ⟨hpc, hrest⟩ := not_or.mp (mt List.mem_cons.mpr h)
    have hone : openPid pc = [pc] := by
      unfold openPid
      split
      · exact absurd rfl hpc
      · rfl
    rw [List.flatMap_cons, hone, ih hrest]
    rfl

theorem textWildcards_append (ps qs : List Piece) :
    textWildcards (ps ++ qs) = textWildcards ps ++ textWildcards qs := by
  simp only [textWildcards, substAll_append]

theorem dateWildcards_append (ps qs : List Piece) :
    dateWildcards (ps ++ qs) = dateWildcards ps ++ dateWildcards qs := by
  simp only [dateWildcards, substAll_append]

theorem textWildcards_lits (w : GoString) : textWildcards (lits w) = lits w := by
  simp only [textWildcards, substAll_lits]

theorem dateWildcards_lits (w : GoString) : dateWildcards (lits w) = lits w := by
  simp only [dateWildcards, substAll_lits]

/-- All the substitutions, each for every occurrence. -/
def substEach (pid : Int) (ps : List Piece) : List Piece :=
  dateWildcards (substAll .p (star :: itoa pid) (textWildcards (substAll .pid (itoa pid) ps)))

theorem substEach_append (pid : Int) (ps qs : List Piece) :
    substEach pid (ps ++ qs) = substEach pid ps ++ substEach pid qs := by
  simp only [substEach, substAll_append, textWildcards_append, dateWildcards_append]

theorem substEach_lits (pid : Int) (w : GoString) : substEach pid (lits w) = lits w := by
  simp only [substEach, substAll_lits, textWildcards_lits, dateWildcards_lits]

theorem substEach_text (pid : Int) {u : Token} {w : GoString} (hpid : u ≠ .pid)
    (h : textWildcards [.tok u] = lits w) : substEach pid [.tok u] = lits w := by
  have hkept : substAll .pid (itoa pid) [.tok u] = [.tok u] :=
    substAll_of_not_mem (by simpa using hpid.symm) _
  rw [substEach, hkept, h, substAll_lits, dateWildcards_lits]

theorem substEach_date (pid : Int) {u : Token} {w : GoString} (hpid : u ≠ .pid) (hp : u ≠ .p)
    (h : textWildcards [.tok u] = [.tok u]) (hdate : dateWildcards [.tok u] = lits w) :
    substEach pid [.tok u] = lits w := by
  have hkept : substAll .pid (itoa pid) [.tok u] = [.tok u] :=
    substAll_of_not_mem (by simpa using hpid.symm) _
  have hkeptP : substAll .p (star :: itoa pid) [.tok u] = [.tok u] :=
    substAll_of_not_mem (by simpa using hp.symm) _
  rw [substEach, hkept, h, hkeptP, hdate]

theorem substEach_singleton (pid : Int) (pc : Piece) :
    substEach pid [pc] = lits (globOf pid pc) := by
  cases pc with
  | lit b => exact substEach_lits pid [b]
  | tok u =>
    cases u with
    | pid =>
      have hnew : substAll .pid (itoa pid) [.tok .pid] = lits (itoa pid) := List.append_nil _
      rw [substEach, hnew, textWildcards_lits, substAll_lits, dateWildcards_lits]
      rfl
    | p =>
      have hkept : substAll .pid (itoa pid) [.tok .p] = [.tok .p] := rfl
      have htexts : textWildcards [.tok .p] = [.tok .p] := by decide
      have hnew : substAll .p (star :: itoa pid) [.tok .p] = lits (star :: itoa pid) :=
        List.append_nil _
      rw [substEach, hkept, htexts, hnew, dateWildcards_lits]
      rfl
    | t => exact substEach_date pid (by decide) (by decide) (by decide) rfl
    | seq => exact substEach_text pid (by decide) rfl
    | tick => exact substEach_text pid (by decide) rfl
    | uid => exact substEach_text pid (by decide) rfl
    | last => exact substEach_text pid (by decide) rfl
    | Y => exact substEach_date pid (by decide) (by decide) (by decide) rfl
    | y => exact substEach_date pid (by decide) (by decide) (by decide) rfl
    | m => exact substEach_date pid (by decide) (by decide) (by decide) rfl
    | d => exact substEach_date pid (by decide) (by decide) (by decide) rfl
    | H => exact substEach_date pid (by decide) (by decide) (by decide) rfl
    | M => exact substEach_date pid (by decide) (by decide) (by decide) rfl
    | S => exact substEach_date pid (by decide) (by decide) (by decide) rfl

theorem textOf_substEach (pid : Int) (ps : List Piece) :
    textOf (substEach pid ps) = ps.flatMap (globOf pid) := by
  induction ps with
  | nil => exact congrArg textOf (substEach_lits pid [])
  | cons pc ps ih =>
    have hsplit : substEach pid (pc :: ps) = substEach pid [pc] ++ substEach pid ps :=
      substEach_append pid [pc] ps
    rw [hsplit, textOf_append, ih, substEach_singleton, textOf_lits, List.flatMap_cons]

theorem count_textWildcards_p (ps : List Piece) :
    (textWildcards ps).count (.tok .p) = ps.count (.tok .p) := by
  unfold textWildcards
  rw [count_substAll (by decide) (by decide), count_substAll (by decide) (by decide),
    count_substAll (by decide) (by decide), count_substAll (by decide) (by decide)]

/-- With one `%pid` and one `%p` at most, the pattern is put together piece by piece. -/
theorem getGlob_eq_flatMap {t : Template} (hpid : t.pieces.count (.tok .pid) ≤ 1)
    (hp : t.pieces.count (.tok .p) ≤ 1) (pid : Int) :
    getGlobPatternFromGCPath t.text pid = t.pieces.flatMap (globOf pid) := by
  have hone : (textWildcards (substAll .pid (itoa pid) t.pieces)).count (.tok .p) ≤ 1 := by
    rw [count_textWildcards_p, count_substAll (by decide) (tok_not_mem_lits _ _)]
    exact hp
  have hnone : .tok .pid ∉ substAll .pid (itoa pid) t.pieces := by
    intro h
    exact (tok_mem_substAll.mp h).2 rfl
  rw [getGlob_text, globPieces, substFirst_eq_substAll hpid, openPid_of_not_mem hnone,
    substFirst_eq_substAll hone]
  exact textOf_substEach pid t.pieces

/-! ## A second name for the process -/

theorem count_substFirst {u : Token} {new : GoString} {qc : Piece} (hu : qc ≠ .tok u)
    (hnew : qc ∉ lits new) (ps : List Piece) : (substFirst u new ps).count qc = ps.count qc := by
  induction ps with
  | nil => rfl
  | cons pc ps ih =>
    rw [substFirst]
    split
    · rename_i hpc
      subst hpc
      rw [List.count_append, List.count_eq_zero.mpr hnew, List.count_cons_of_ne hu.symm,
        Nat.zero_add]
    · rw [List.count_cons, List.count_cons, ih]

theorem count_substFirst_self (u : Token) (new : GoString) (ps : List Piece) :
    (substFirst u new ps).count (.tok u) = ps.count (.tok u) - 1 := by
  induction ps with
  | nil => rfl
  | cons pc ps ih =>
    rw [substFirst]
    split
    · rename_i hpc
      subst hpc
      rw [List.count_append, List.count_eq_zero.mpr (tok_not_mem_lits u new), List.count_cons_self]
      omega
    · rename_i hpc
      rw [List.count_cons_of_ne hpc, List.count_cons_of_ne hpc, ih]

/-- Every `%pid` that is left brings one of the pieces it is read as. -/
theorem count_openPid {qc : Piece} (hne : qc ≠ .tok .pid) (hone : pAndId.count qc = 1)
    (ps : List Piece) :
    (ps.flatMap openPid).count qc = ps.count qc + ps.count (.tok .pid) := by
  induction ps with
  | nil => rfl
  | cons pc ps ih =>
    rw [List.flatMap_cons, List.count_append, ih]
    by_cases hpc : pc = .tok .pid
    · subst hpc
      have hopen : (openPid (.tok .pid)).count qc = 1 := hone
      rw [hopen, List.count_cons_of_ne hne.symm, List.count_cons_self]
      omega
    · have hopen : openPid pc = [pc] := by
        unfold openPid
        split
        · exact absurd rfl hpc
        · rfl
      rw [hopen, List.count_cons_of_ne hpc, List.count_cons (a := qc) (b := pc) (l := ps),
        List.count_singleton]
      omega

theorem count_textWildcards {b : Byte} (hb : b ∉ str "???*") (ps : List Piece) :
    (textWildcards ps).count (.lit b) = ps.count (.lit b) := by
  have hquestion : Piece.lit b ∉ lits (str "???") :=
    fun h => hb (List.mem_append_left (str "*") (lit_mem_lits.mp h))
  have hstar : Piece.lit b ∉ lits (str "*") :=
    fun h => hb (List.mem_append_right (str "???") (lit_mem_lits.mp h))
  unfold textWildcards
  rw [count_substAll (by simp) hstar, count_substAll (by simp) hstar,
    count_substAll (by simp) hstar, count_substAll (by simp) hquestion]

theorem count_dateWildcards {qc : Piece} (hqc : qc ∉ lits (str "?-_"))
    (htoks : qc ∉ ([.t, .Y, .y, .m, .d, .H, .M, .S] : List Token).map Piece.tok) (ps : List Piece) :
    (dateWildcards ps).count qc = ps.count qc := by
  have hnew : ∀ new : GoString, (∀ b ∈ new, b ∈ str "?-_") → qc ∉ lits new := by
    intro new hbytes hmem
    obtain ⟨b, hb, rfl⟩ := List.mem_map.mp hmem
    exact hqc (lit_mem_lits.mpr (hbytes b hb))
  have htok : ∀ u ∈ ([.t, .Y, .y, .m, .d, .H, .M, .S] : List Token), qc ≠ .tok u :=
    fun u hu h => htoks (List.mem_map.mpr ⟨u, hu, h.symm⟩)
  have htwo := hnew (str "??") (by decide)
  unfold dateWildcards
  rw [count_substAll (htok .S (by decide)) htwo, count_substAll (htok .M (by decide)) htwo,
    count_substAll (htok .H (by decide)) htwo, count_substAll (htok .d (by decide)) htwo,
    count_substAll (htok .m (by decide)) htwo, count_substAll (htok .y (by decide)) htwo,
    count_substAll (htok .Y (by decide)) (hnew _ (by decide)),
    count_substAll (htok .t (by decide)) (hnew _ (by decide))]

/-- The letter of `%pid` that `%p` leaves over. -/
def letterI : Byte := 105

theorem letterI_not_mem_itoa (n : Int) : letterI ∉ itoa n := by
  intro h
  rcases itoa_bytes letterI h with h | h
  · revert h
    decide
  · revert h
    decide

theorem count_letterI_globPieces (pid : Int) (ps : List Piece) :
    (globPieces pid ps).count (.lit letterI) =
      ps.count (.lit letterI) + (ps.count (.tok .pid) - 1) := by
  have hitoa : Piece.lit letterI ∉ lits (itoa pid) :=
    fun h => letterI_not_mem_itoa pid (lit_mem_lits.mp h)
  have hstar : Piece.lit letterI ∉ lits (str "*" ++ itoa pid) := by
    intro h
    rcases List.mem_append.mp (lit_mem_lits.mp h) with h | h
    · revert h
      decide
    · exact letterI_not_mem_itoa pid h
  rw [globPieces, count_dateWildcards (by decide) (by decide), count_substFirst (by simp) hstar,
    count_textWildcards (by decide), count_openPid (by simp) (by decide),
    count_substFirst (by simp) hitoa, count_substFirst_self]

theorem count_p_globPieces (pid : Int) (ps : List Piece) :
    (globPieces pid ps).count (.tok .p) =
      ps.count (.tok .p) + (ps.count (.tok .pid) - 1) - 1 := by
  rw [globPieces, count_dateWildcards (by decide) (by decide), count_substFirst_self,
    count_textWildcards_p, count_openPid (by decide) (by decide),
    count_substFirst (by decide) (tok_not_mem_lits _ _), count_substFirst_self]

theorem count_lit_le_count_textOf (b : Byte) (ps : List Piece) :
    ps.count (.lit b) ≤ (textOf ps).count b := by
  induction ps with
  | nil => exact Nat.le_refl 0
  | cons pc ps ih =>
    rw [textOf_cons, List.count_append, List.count_cons]
    cases pc with
    | lit c =>
      have hone : (Piece.text (.lit c)).count b = if c = b then 1 else 0 := by
        simp [Piece.text, List.count_singleton]
      rw [hone]
      by_cases hc : c = b
      · simp only [hc, if_true, beq_self_eq_true]
        omega
      · simp only [hc, if_false, beq_iff_eq, Piece.lit.injEq]
        omega
    | tok u =>
      simp only [beq_iff_eq, reduceCtorEq, if_false]
      omega

/-- What a JVM writes at the least. -/
def shortest (pid : Int) : Piece → GoString
  | .lit b => [b]
  | .tok .pid => itoa pid
  | .tok .p => itoa pid
  | .tok .t => str "2024-01-01_00-00-00"
  | .tok .seq => str "001"
  | .tok .tick => []
  | .tok .uid => []
  | .tok .last => []
  | .tok .Y => str "2024"
  | .tok .y => str "24"
  | .tok .m => str "01"
  | .tok .d => str "01"
  | .tok .H => str "00"
  | .tok .M => str "00"
  | .tok .S => str "00"

theorem expansion_seq {pid : Int} {x : GoString} (hx : Digits 3 x) :
    Expansion pid (.tok .seq) x := by
  obtain ⟨hlen, hdigits⟩ := hx
  obtain ⟨a, b, c, rfl⟩ := List.length_eq_three.mp hlen
  have hcharacter : ∀ d ∈ [a, b, c], Character [d] := by
    intro d hd
    obtain ⟨hascii, hslash⟩ := isDigit_ascii (hdigits d hd)
    exact character_of_ascii hascii hslash
  exact ⟨[a], [b], [c], hcharacter a (by simp), hcharacter b (by simp), hcharacter c (by simp), rfl⟩

theorem expansion_shortest (pid : Int) (pc : Piece) : Expansion pid pc (shortest pid pc) := by
  have hyear : Digits 4 (str "2024") := by decide
  have htwo : ∀ x ∈ [str "24", str "01", str "00"], Digits 2 x := by decide
  cases pc with
  | lit b => rfl
  | tok u =>
    cases u with
    | pid => rfl
    | p => exact Or.inl rfl
    | t =>
      exact ⟨str "2024", str "01", str "01", str "00", str "00", str "00", hyear,
        htwo _ (by decide), htwo _ (by decide), htwo _ (by decide), htwo _ (by decide),
        htwo _ (by decide), rfl⟩
    | seq =>
      have hseq : Digits 3 (str "001") := by decide
      exact expansion_seq hseq
    | tick => exact List.not_mem_nil
    | uid => exact List.not_mem_nil
    | last => exact List.not_mem_nil
    | Y => exact hyear
    | y => exact htwo (str "24") (by decide)
    | m => exact htwo (str "01") (by decide)
    | d => exact htwo (str "01") (by decide)
    | H => exact htwo (str "00") (by decide)
    | M => exact htwo (str "00") (by decide)
    | S => exact htwo (str "00") (by decide)

theorem expands_shortest (pid : Int) (ps : List Piece) :
    Expands pid ps (ps.flatMap (shortest pid)) := by
  induction ps with
  | nil => rfl
  | cons pc ps ih =>
    exact ⟨shortest pid pc, ps.flatMap (shortest pid), rfl, expansion_shortest pid pc, ih⟩

/-- A token is written with digits and the separators of dates. -/
theorem shortest_tok_bytes (pid : Int) (u : Token) :
    ∀ b ∈ shortest pid (.tok u), IsDigit b ∨ b = 45 ∨ b = 95 := by
  have hitoa : ∀ b ∈ itoa pid, IsDigit b ∨ b = 45 ∨ b = 95 :=
    fun b hb => (itoa_bytes b hb).imp_right Or.inl
  have hwritten : ∀ x ∈ [str "2024-01-01_00-00-00", str "001", [], str "2024", str "24", str "01",
      str "00"], ∀ b ∈ x, IsDigit b ∨ b = 45 ∨ b = 95 := by decide
  cases u with
  | pid => exact hitoa
  | p => exact hitoa
  | t => exact hwritten (str "2024-01-01_00-00-00") (by decide)
  | seq => exact hwritten (str "001") (by decide)
  | tick => exact hwritten [] (by decide)
  | uid => exact hwritten [] (by decide)
  | last => exact hwritten [] (by decide)
  | Y => exact hwritten (str "2024") (by decide)
  | y => exact hwritten (str "24") (by decide)
  | m => exact hwritten (str "01") (by decide)
  | d => exact hwritten (str "01") (by decide)
  | H => exact hwritten (str "00") (by decide)
  | M => exact hwritten (str "00") (by decide)
  | S => exact hwritten (str "00") (by decide)

theorem count_shortest {b : Byte} (hb : ¬ (IsDigit b ∨ b = 45 ∨ b = 95)) (pid : Int)
    (ps : List Piece) : (ps.flatMap (shortest pid)).count b = ps.count (.lit b) := by
  induction ps with
  | nil => rfl
  | cons pc ps ih =>
    rw [List.flatMap_cons, List.count_append, ih, List.count_cons]
    cases pc with
    | lit c =>
      have hone : (shortest pid (.lit c)).count b = if c = b then 1 else 0 := by
        simp [shortest, List.count_singleton]
      rw [hone]
      by_cases hc : c = b
      · simp only [hc, if_true, beq_self_eq_true]
        omega
      · simp only [hc, if_false, beq_iff_eq, Piece.lit.injEq]
        omega
    | tok u =>
      have hnone : (shortest pid (.tok u)).count b = 0 :=
        List.count_eq_zero.mpr fun h => hb (shortest_tok_bytes pid u b h)
      rw [hnone]
      simp

/-- A pattern that matches the shortest path holds nothing left over from the tokens. -/
theorem count_le_one_of_matches {t : Template} {pid : Int}
    (h : Matches (getGlobPatternFromGCPath t.text pid) (t.pieces.flatMap (shortest pid))) :
    t.pieces.count (.tok .pid) ≤ 1 ∧ t.pieces.count (.tok .p) ≤ 1 := by
  rw [getGlob_text] at h
  have hletter := count_le_of_matches (c := letterI) (by decide) h
  have hpercent := count_le_of_matches (c := percent) (by decide) h
  rw [count_shortest (by decide)] at hletter hpercent
  have hlits := count_lit_le_count_textOf letterI (globPieces pid t.pieces)
  rw [count_letterI_globPieces] at hlits
  have hpid : t.pieces.count (.tok .pid) ≤ 1 := by omega
  refine ⟨hpid, ?_⟩
  by_contra hp
  have hleft : 0 < (globPieces pid t.pieces).count (.tok .p) := by
    rw [count_p_globPieces]
    omega
  have hmem : percent ∈ textOf (globPieces pid t.pieces) :=
    List.mem_flatMap.mpr ⟨_, List.count_pos_iff.mp hleft, List.mem_cons_self⟩
  have hnone : t.pieces.count (.lit percent) = 0 :=
    List.count_eq_zero.mpr fun hlit => t.literal percent hlit rfl
  have hsome := List.count_pos_iff.mpr hmem
  omega

/-- The pattern covers all paths exactly when `%pid` and `%p` both stand at most once. -/
theorem covered_iff (t : Template) (pid : Int) :
    Covered t pid ↔ t.pieces.count (.tok .pid) ≤ 1 ∧ t.pieces.count (.tok .p) ≤ 1 := by
  constructor
  · intro h
    exact count_le_one_of_matches (h _ (expands_shortest pid t.pieces))
  · intro h path hpath
    rw [getGlob_eq_flatMap h.1 h.2]
    have hall := matches_expands hpath (matches_nil.mpr rfl)
    rwa [List.append_nil, List.append_nil] at hall

/-- Of two `%p` the second one stays in the pattern. -/
theorem second_p_is_not_covered :
    ¬ ∀ (t : Template) (pid : Int), Covered t pid := by
  intro h
  have hlit : LiteralBytes [.tok .p, .lit 45, .tok .p] := by
    intro b hb
    obtain rfl : b = 45 := by simpa using hb
    decide
  have hcovered := h ⟨[.tok .p, .lit 45, .tok .p], hlit, by decide, by decide⟩ 12
  have hmatch : Matches (getGlobPatternFromGCPath (str "%p-%p") 12) (str "12-12") :=
    hcovered (str "12-12") ⟨str "12", str "-12", rfl, Or.inl rfl,
      str "-", str "12", rfl, rfl, str "12", [], rfl, Or.inl rfl, rfl⟩
  revert hmatch
  decide

end YcAgent.Capture
