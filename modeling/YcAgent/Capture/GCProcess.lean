import YcAgent.Base.Anchors
import YcAgent.Capture.GCGlob
import YcAgent.Capture.GCDisk

/-!
# The GC logs of other processes

A pattern for one process must not match the log of another one. Bytes that are neither
digits nor wildcards hold the digits of the process id in their place, unless a star
stands next to them.
-/
namespace YcAgent.Capture

open Go Go.FilePath

def timeTokens : List Token := [.t, .Y, .y, .m, .d, .H, .M, .S]

/-- A template that names the process once and otherwise only the time. -/
structure ProcessTemplate extends Template where
  process : pieces.count (.tok .pid) + pieces.count (.tok .p) = 1
  timed : ∀ u, .tok u ∈ pieces → u = .pid ∨ u = .p ∨ u ∈ timeTokens

/-- The glob package finds only paths that match. -/
def GlobSound {σ : Type} (sys : System σ) : Prop :=
  ∀ pattern s files, sys.glob pattern s = .ok files → ∀ file ∈ files, Matches pattern file

/-- For one process, no log of another one matches, is found or is what the tokens lead to. -/
def KeepsApart (t : Template) : Prop :=
  ∀ q r : Int, 0 < q → 0 < r → q ≠ r → ∀ path, Expands r t.pieces path →
    ¬ Matches (getGlobPatternFromGCPath t.text q) path ∧
    ∀ {σ : Type} (sys : System σ) (sorter : SortSlice) (s : σ), GlobSound sys →
      getLatestFileFromGlobPattern sys sorter (getGlobPatternFromGCPath t.text q) s ≠ (path, none) ∧
      resolveTokens sys sorter t.text q s ≠ path

/-- The tokens of the time that are written with digits alone. -/
def digitTokens : List Token := [.Y, .y, .m, .d, .H, .M, .S]

/-- A piece that can be written with digits and wildcards alone. -/
def Loose : Piece → Prop
  | .lit b => IsDigit b ∨ IsMeta b
  | .tok u => u ∈ digitTokens

/-- Nothing but loose pieces stands between a star and the process id. -/
def StarBeside (ps : List Piece) : Prop :=
  ∃ front between back, (∀ pc ∈ between, Loose pc) ∧
    (ps = front ++ .lit star :: (between ++ .tok .pid :: back) ∨
      ps = front ++ .tok .pid :: (between ++ .lit star :: back))

/-- A byte that holds its place: neither a digit nor a wildcard. -/
def isAnchor (b : Byte) : Bool := decide (¬ (IsDigit b ∨ IsMeta b))

theorem not_isMeta_of_isAnchor (b : Byte) (h : isAnchor b = true) : ¬ IsMeta b := by
  have hno : ¬ (IsDigit b ∨ IsMeta b) := by simpa [isAnchor] using h
  exact fun hmeta => hno (Or.inr hmeta)

theorem isAnchor_of_digit {b : Byte} (h : IsDigit b) : isAnchor b = false := by
  simp [isAnchor, h]

theorem isAnchor_eq_false {b : Byte} : isAnchor b = false ↔ IsDigit b ∨ IsMeta b := by
  rw [isAnchor, decide_eq_false_iff_not, not_not]

theorem ascii_of_not_isAnchor {b : Byte} (h : isAnchor b = false) : b < 0x80 := by
  rcases isAnchor_eq_false.mp h with hdigit | rfl | rfl
  · exact (isDigit_ascii hdigit).1
  · decide
  · decide

/-! ## Pieces other than the process -/

/-- A literal byte or a token of the time. -/
def Timed : Piece → Prop
  | .lit _ => True
  | .tok u => u ∈ timeTokens

theorem aligned_digits {n : Nat} {x : GoString} (h : Digits n x) :
    Aligned isAnchor (List.replicate n questionMark) x := by
  obtain ⟨rfl, hdigits⟩ := h
  induction x with
  | nil => exact .nil
  | cons b x ih =>
    obtain ⟨hb, hrest⟩ := List.forall_mem_cons.mp hdigits
    refine .cons ?_ (ih hrest)
    intro hany
    rcases hany with h | h
    · exact absurd h (by decide)
    · exact absurd h (Bool.eq_false_iff.mp (isAnchor_of_digit hb))

theorem aligned_timestamp {x : GoString} (h : Timestamp x) :
    Aligned isAnchor (str "????-??-??_??-??-??") x := by
  obtain ⟨Y, m, d, H, M, S, hY, hm, hd, hH, hM, hS, rfl⟩ := h
  exact ((((((((((aligned_digits hY).append (.refl (str "-"))).append (aligned_digits hm)).append
    (.refl (str "-"))).append (aligned_digits hd)).append (.refl (str "_"))).append
    (aligned_digits hH)).append (.refl (str "-"))).append (aligned_digits hM)).append
    (.refl (str "-"))).append (aligned_digits hS)

theorem aligned_globOf {q r : Int} {pc : Piece} (hpc : Timed pc) {x : GoString}
    (h : Expansion r pc x) : Aligned isAnchor (globOf q pc) x := by
  cases pc with
  | lit b =>
    obtain rfl : x = [b] := h
    exact .refl [b]
  | tok u =>
    cases u with
    | t => exact aligned_timestamp h
    | Y => exact aligned_digits h
    | y => exact aligned_digits h
    | m => exact aligned_digits h
    | d => exact aligned_digits h
    | H => exact aligned_digits h
    | M => exact aligned_digits h
    | S => exact aligned_digits h
    | _ => exact absurd (show _ ∈ timeTokens from hpc) (by decide)

theorem aligned_expands {q r : Int} {ps : List Piece} (hps : ∀ pc ∈ ps, Timed pc) {path : GoString}
    (h : Expands r ps path) : Aligned isAnchor (ps.flatMap (globOf q)) path := by
  induction ps generalizing path with
  | nil =>
    obtain rfl : path = [] := h
    exact .nil
  | cons pc ps ih =>
    obtain ⟨hpc, hrest⟩ := List.forall_mem_cons.mp hps
    obtain ⟨x, rest, rfl, hx, hexp⟩ := h
    exact (aligned_globOf hpc hx).append (ih hrest hexp)

theorem expands_append {pid : Int} {ps qs : List Piece} {path : GoString} :
    Expands pid (ps ++ qs) path ↔
      ∃ x y, path = x ++ y ∧ Expands pid ps x ∧ Expands pid qs y := by
  induction ps generalizing path with
  | nil =>
    constructor
    · intro h
      exact ⟨[], path, rfl, rfl, h⟩
    · intro h
      obtain ⟨x, y, rfl, hx, hy⟩ := h
      obtain rfl : x = [] := hx
      exact hy
  | cons pc ps ih =>
    constructor
    · intro h
      obtain ⟨x, rest, rfl, hx, hrest⟩ := h
      obtain ⟨x', y, rfl, hps, hqs⟩ := ih.mp hrest
      exact ⟨x ++ x', y, by simp, ⟨x, x', rfl, hx, hps⟩, hqs⟩
    · intro h
      obtain ⟨x, y, rfl, ⟨x', rest, rfl, hx, hrest⟩, hqs⟩ := h
      exact ⟨x', rest ++ y, by simp, hx, ih.mpr ⟨rest, y, rfl, hrest, hqs⟩⟩

theorem star_mem_globOf {q : Int} {pc : Piece} (hpc : Timed pc) (h : star ∈ globOf q pc) :
    pc = .lit star := by
  cases pc with
  | lit b => rw [List.mem_singleton.mp h]
  | tok u =>
    have hno : ∀ u ∈ timeTokens, star ∉ globOf 0 (.tok u) := by decide
    have hsame : globOf q (.tok u) = globOf 0 (.tok u) := by
      cases u with
      | pid => exact absurd (show _ ∈ timeTokens from hpc) (by decide)
      | p => exact absurd (show _ ∈ timeTokens from hpc) (by decide)
      | _ => rfl
    exact absurd (hsame ▸ h) (hno u hpc)

theorem loose_of_globOf {q : Int} {pc : Piece} (hpc : Timed pc)
    (h : ∀ b ∈ globOf q pc, isAnchor b = false) : Loose pc := by
  cases pc with
  | lit b => exact isAnchor_eq_false.mp (h b List.mem_cons_self)
  | tok u =>
    by_cases ht : u = .t
    · subst ht
      have hdash : (45 : Byte) ∈ str "????-??-??_??-??-??" := by decide
      exact absurd (h 45 hdash) (by decide)
    · have hdigits : ∀ u ∈ timeTokens, u ≠ .t → u ∈ digitTokens := by decide
      exact hdigits u hpc ht

/-- A star behind the last anchor comes from a literal star, with loose pieces behind it. -/
theorem star_of_last_run {q : Int} {ps : List Piece} (hps : ∀ pc ∈ ps, Timed pc) {A X : GoString}
    (h : ps.flatMap (globOf q) = A ++ X) (hX : ∀ b ∈ X, isAnchor b = false) (hstar : star ∈ X) :
    ∃ front between, ps = front ++ .lit star :: between ∧ ∀ pc ∈ between, Loose pc := by
  induction ps using List.reverseRecOn generalizing X with
  | nil =>
    have hnil := List.append_eq_nil_iff.mp h.symm
    rw [hnil.2] at hstar
    cases hstar
  | append_singleton ps pc ih =>
    have hpc : Timed pc := hps pc (by simp)
    have hrest : ∀ qc ∈ ps, Timed qc := fun qc hqc => hps qc (List.mem_append_left _ hqc)
    rw [List.flatMap_append, List.flatMap_singleton] at h
    by_cases hhere : star ∈ globOf q pc
    · exact ⟨ps, [], by rw [star_mem_globOf hpc hhere], by simp⟩
    · rcases List.append_eq_append_iff.mp h with ⟨d, _, hd⟩ | ⟨d, hfront, rfl⟩
      · exact absurd (hd ▸ List.mem_append_right d hstar) hhere
      · have hin : star ∈ d := (List.mem_append.mp hstar).resolve_right hhere
        obtain ⟨front, between, rfl, hbetween⟩ :=
          ih hrest hfront (fun b hb => hX b (List.mem_append_left _ hb)) hin
        refine ⟨front, between ++ [pc], by simp, ?_⟩
        intro qc hqc
        rcases List.mem_append.mp hqc with hqc | hqc
        · exact hbetween qc hqc
        · rw [List.mem_singleton.mp hqc]
          exact loose_of_globOf hpc fun b hb => hX b (List.mem_append_right _ hb)

theorem star_of_first_run {q : Int} {ps : List Piece} (hps : ∀ pc ∈ ps, Timed pc) {Y B : GoString}
    (h : ps.flatMap (globOf q) = Y ++ B) (hY : ∀ b ∈ Y, isAnchor b = false) (hstar : star ∈ Y) :
    ∃ between back, ps = between ++ .lit star :: back ∧ ∀ pc ∈ between, Loose pc := by
  induction ps generalizing Y with
  | nil =>
    have hnil := List.append_eq_nil_iff.mp h.symm
    rw [hnil.1] at hstar
    cases hstar
  | cons pc ps ih =>
    obtain ⟨hpc, hrest⟩ := List.forall_mem_cons.mp hps
    rw [List.flatMap_cons] at h
    by_cases hhere : star ∈ globOf q pc
    · exact ⟨[], ps, by rw [star_mem_globOf hpc hhere]; rfl, by simp⟩
    · rcases List.append_eq_append_iff.mp h with ⟨d, rfl, hback⟩ | ⟨d, hd, _⟩
      · have hin : star ∈ d := (List.mem_append.mp hstar).resolve_left hhere
        obtain ⟨between, back, rfl, hbetween⟩ :=
          ih hrest hback (fun b hb => hY b (List.mem_append_right _ hb)) hin
        refine ⟨pc :: between, back, rfl, List.forall_mem_cons.mpr ⟨?_, hbetween⟩⟩
        exact loose_of_globOf hpc fun b hb => hY b (List.mem_append_left _ hb)
      · exact absurd (hd ▸ List.mem_append_left d hstar) hhere

/-! ## The process id stays in its place -/

theorem not_isMeta_itoa {n : Int} : ∀ b ∈ itoa n, ¬ IsMeta b := by
  intro b hb hmeta
  rcases itoa_bytes b hb with hdigit | rfl
  · rcases hmeta with rfl | rfl
    · revert hdigit
      decide
    · revert hdigit
      decide
  · revert hmeta
    decide

theorem isDigit_itoa {n : Int} (hn : 0 < n) : ∀ b ∈ itoa n, IsDigit b := by
  rw [itoa_of_nonneg (Int.le_of_lt hn)]
  exact isDigit_of_mem_decimal

/-- Runs of the same length around the process ids leave the same place for both. -/
theorem eq_of_eats_middle {q r : Int} (hr : 0 < r) {X Y x y rest : GoString}
    (hX : star ∉ X) (hY : star ∉ Y) (hx : x.length = X.length) (hy : y.length = Y.length)
    (hascii : ∀ b ∈ x ++ y, b < 0x80)
    (h : Eats (X ++ (itoa q ++ Y)) (x ++ (itoa r ++ y)) rest) : q = r := by
  obtain ⟨x', t, hsplit, hfirst, ht⟩ := eats_append h
  obtain ⟨m, y', rfl, hmiddle, hlast⟩ := eats_append ht
  obtain rfl := eats_literals not_isMeta_itoa hmiddle
  have hall : ∀ b ∈ x' ++ (itoa q ++ y'), b < 0x80 := by
    rw [← hsplit]
    intro b hb
    rcases List.mem_append.mp hb with hb | hb
    · exact hascii b (List.mem_append_left y hb)
    · rcases List.mem_append.mp hb with hb | hb
      · exact (isDigit_ascii (isDigit_itoa hr b hb)).1
      · exact hascii b (List.mem_append_right x hb)
  have hx' := length_of_eats hX (fun b hb => hall b (List.mem_append_left _ hb)) hfirst
  have hy' := length_of_eats hY (fun b hb => hall b
    (List.mem_append_right x' (List.mem_append_right _ hb))) hlast
  obtain ⟨_, hids⟩ := List.append_inj hsplit (hx.trans hx'.symm)
  have hlen := congrArg List.length hids
  simp only [List.length_append] at hlen
  obtain ⟨hid, _⟩ := List.append_inj hids (by omega)
  exact itoa_injective hid.symm

theorem eq_of_eats {q r : Int} (hr : 0 < r) {front back : List Piece}
    (hfront : ∀ pc ∈ front, Timed pc) (hback : ∀ pc ∈ back, Timed pc)
    (hno : ¬ StarBeside (front ++ .tok .pid :: back)) {path rest : GoString}
    (hpath : Expands r (front ++ .tok .pid :: back) path)
    (heats : Eats ((front ++ .tok .pid :: back).flatMap (globOf q)) path rest) : q = r := by
  obtain ⟨a, t, rfl, ha, x, b, rfl, hx, hb⟩ := expands_append.mp hpath
  obtain rfl : x = itoa r := hx
  obtain ⟨A, X, hA, hX, hends⟩ := exists_last_anchor (p := isAnchor) (front.flatMap (globOf q))
  obtain ⟨Y, B, hB, hY, hstarts⟩ := exists_first_anchor (p := isAnchor) (back.flatMap (globOf q))
  have haligned := aligned_expands (q := q) hfront ha
  have hbligned := aligned_expands (q := q) hback hb
  rw [hA] at haligned
  rw [hB] at hbligned
  obtain ⟨a', x, rfl, hAa, hXx⟩ := haligned.split
  obtain ⟨y, b', rfl, hYy, hBb⟩ := hbligned.split
  have hstarX : star ∉ X := by
    intro hstar
    obtain ⟨f, between, rfl, hbetween⟩ := star_of_last_run hfront hA hX hstar
    exact hno ⟨f, between, back, hbetween, Or.inl (by simp)⟩
  have hstarY : star ∉ Y := by
    intro hstar
    obtain ⟨between, f, rfl, hbetween⟩ := star_of_first_run hback hB hY hstar
    exact hno ⟨front, between, f, hbetween, Or.inr rfl⟩
  have hpattern : (front ++ .tok .pid :: back).flatMap (globOf q) =
      A ++ ((X ++ (itoa q ++ Y)) ++ B) := by
    rw [List.flatMap_append, List.flatMap_cons, hA, hB]
    simp [globOf]
  have htext : a' ++ x ++ (itoa r ++ (y ++ b')) = a' ++ ((x ++ (itoa r ++ y)) ++ b') := by
    simp
  rw [hpattern, htext] at heats
  have hrun : ∀ {run text : GoString}, Aligned isAnchor run text →
      (∀ b ∈ run, isAnchor b = false) → ∀ b ∈ text, isAnchor b = false := by
    intro run text halign hrun
    have hcount : text.countP isAnchor = 0 := by
      rw [← halign.countP_eq]
      exact List.countP_eq_zero.mpr fun b hb => Bool.eq_false_iff.mp (hrun b hb)
    exact fun b hb => Bool.eq_false_iff.mpr (List.countP_eq_zero.mp hcount b hb)
  have hxrun := hrun hXx hX
  have hyrun := hrun hYy hY
  have hmiddle : (x ++ (itoa r ++ y)).countP isAnchor = 0 := by
    refine List.countP_eq_zero.mpr fun b hb => Bool.eq_false_iff.mp ?_
    rcases List.mem_append.mp hb with hb | hb
    · exact hxrun b hb
    · rcases List.mem_append.mp hb with hb | hb
      · exact isAnchor_of_digit (isDigit_itoa hr b hb)
      · exact hyrun b hb
  obtain ⟨rest', hmiddleEats⟩ :=
    middle_of_eats not_isMeta_of_isAnchor hends hstarts hAa hBb hmiddle heats
  refine eq_of_eats_middle hr hstarX hstarY hXx.length_eq.symm hYy.length_eq.symm ?_ hmiddleEats
  intro b hb
  rcases List.mem_append.mp hb with hb | hb
  · exact ascii_of_not_isAnchor (hxrun b hb)
  · exact ascii_of_not_isAnchor (hyrun b hb)

/-! ## What is found -/

theorem Aligned.mono {p p' : Byte → Bool} (hpp : ∀ b, p' b = true → p b = true) {A a : GoString}
    (h : Aligned p A a) : Aligned p' A a :=
  List.Forall₂.imp (fun _ _ hcb hany => hcb (hany.imp (hpp _) (hpp _))) h

/-- An anchor stands as often in the path as in the pattern for another process. -/
theorem count_expands {c : Byte} (hc : isAnchor c = true) {q r : Int} (hq : 0 < q) (hr : 0 < r)
    {front back : List Piece} (hfront : ∀ pc ∈ front, Timed pc) (hback : ∀ pc ∈ back, Timed pc)
    {path : GoString} (h : Expands r (front ++ .tok .pid :: back) path) :
    ((front ++ .tok .pid :: back).flatMap (globOf q)).count c = path.count c := by
  obtain ⟨a, t, rfl, ha, x, b, rfl, hx, hb⟩ := expands_append.mp h
  obtain rfl : x = itoa r := hx
  have hsame : ∀ {ps : List Piece} {text : GoString}, (∀ pc ∈ ps, Timed pc) → Expands r ps text →
      (ps.flatMap (globOf q)).count c = text.count c := by
    intro ps text hps htext
    have halign : Aligned (· == c) (ps.flatMap (globOf q)) text := by
      refine Aligned.mono ?_ (aligned_expands hps htext)
      intro b hb
      rw [beq_iff_eq.mp hb]
      exact hc
    exact halign.countP_eq
  have hid : ∀ {n : Int}, 0 < n → (itoa n).count c = 0 := by
    intro n hn
    refine List.count_eq_zero.mpr fun hmem => ?_
    exact absurd hc (Bool.eq_false_iff.mp (isAnchor_of_digit (isDigit_itoa hn c hmem)))
  rw [List.flatMap_append, List.flatMap_cons, List.count_append, List.count_append,
    List.count_append, List.count_append, hsame hfront ha, hsame hback hb]
  show _ + ((itoa q).count c + _) = _
  rw [hid hq, hid hr]

/-- The rotated log of another process is no match for the pattern of rotated logs. -/
theorem eq_of_matches_rotated {q r : Int} (hq : 0 < q) (hr : 0 < r) {front back : List Piece}
    (hfront : ∀ pc ∈ front, Timed pc) (hback : ∀ pc ∈ back, Timed pc)
    (hno : ¬ StarBeside (front ++ .tok .pid :: back)) {path file : GoString}
    (hpath : Expands r (front ++ .tok .pid :: back) path)
    (hfile : Matches ((front ++ .tok .pid :: back).flatMap (globOf q) ++ str ".*") file)
    (htrim : trimSuffix file (ext file) = path) : q = r := by
  obtain ⟨taken, rest, hsplit, heats, hrest⟩ := eats_of_matches hfile
  have hdotted : Matches [dot, star] rest := hrest
  obtain ⟨e, rfl, _⟩ := (matches_literal (by decide)).mp hdotted
  have hdots := countP_le_of_eats (p := (· == dot)) (fun b hb => by rw [beq_iff_eq.mp hb]; decide)
    heats
  have hpathDots := count_expands (c := dot) (by decide) hq hr hfront hback hpath
  have hwhole := trimSuffix_append_ext file
  rw [htrim, hsplit] at hwhole
  have hcount := congrArg (List.countP (· == dot)) hwhole
  rw [List.countP_append, List.countP_append] at hcount
  have hrestDots : (dot :: e).countP (· == dot) = e.countP (· == dot) + 1 :=
    List.countP_cons_of_pos (by decide)
  change List.countP (· == dot) _ = List.countP (· == dot) _ at hpathDots
  rcases ext_cases (taken ++ dot :: e) with hnil | ⟨e', hext, hdot⟩
  · rw [hnil, List.countP_nil, hrestDots] at hcount
    omega
  · have hlast : (dot :: e').countP (· == dot) = 1 := by
      rw [List.countP_cons_of_pos (by decide), List.countP_eq_zero.mpr]
      intro b hb
      rw [Bool.not_eq_true, beq_eq_false_iff_ne]
      exact fun hb' => hdot (hb' ▸ hb)
    rw [hext] at hwhole
    rw [hext, hlast, hrestDots] at hcount
    have hstart : ∀ l : GoString, StartsAnchored (· == dot) (dot :: l) := by
      intro l a l' hl
      rw [← List.head_eq_of_cons_eq hl]
      decide
    obtain ⟨rfl, _⟩ := (hstart e').cut (hstart e) (by rw [hlast, hrestDots]; omega) hwhole
    exact eq_of_eats hr hfront hback hno hpath heats

theorem percent_not_mem_globOf {pid : Int} {pc : Piece} (hlit : ∀ b, pc = .lit b → b ≠ percent) :
    percent ∉ globOf pid pc := by
  cases pc with
  | lit b =>
    intro h
    exact hlit b rfl (List.mem_singleton.mp h).symm
  | tok u =>
    cases u with
    | pid => exact percent_not_mem_itoa pid
    | p =>
      intro h
      rcases List.mem_cons.mp h with h | h
      · revert h
        decide
      · exact percent_not_mem_itoa pid h
    | t => exact (by decide : percent ∉ str "????-??-??_??-??-??")
    | seq => exact (by decide : percent ∉ str "???")
    | Y => exact (by decide : percent ∉ str "????")
    | tick => exact (by decide : percent ∉ str "*")
    | uid => exact (by decide : percent ∉ str "*")
    | last => exact (by decide : percent ∉ str "*")
    | _ => exact (by decide : percent ∉ str "??")

namespace ProcessTemplate

variable (t : ProcessTemplate)

/-- The pieces on both sides of the process id are literal bytes and tokens of the time. -/
theorem timed_sides {u : Token} (hu : u = .pid ∨ u = .p) {front back : List Piece}
    (hps : t.pieces = front ++ .tok u :: back) :
    (∀ pc ∈ front, Timed pc) ∧ ∀ pc ∈ back, Timed pc := by
  have hone := t.process
  have htimed := t.timed
  rw [hps] at hone htimed
  simp only [List.count_append, List.count_cons] at hone
  have hside : ∀ qs : List Piece, (∀ pc ∈ qs, pc ∈ front ++ .tok u :: back) →
      qs.count (.tok .pid) = 0 → qs.count (.tok .p) = 0 → ∀ pc ∈ qs, Timed pc := by
    intro qs hqs hpid hp pc hpc
    cases pc with
    | lit b => trivial
    | tok v =>
      rcases htimed v (hqs _ hpc) with rfl | rfl | hv
      · exact absurd hpc (List.count_eq_zero.mp hpid)
      · exact absurd hpc (List.count_eq_zero.mp hp)
      · exact hv
  have hcounts : front.count (.tok .pid) = 0 ∧ front.count (.tok .p) = 0 ∧
      back.count (.tok .pid) = 0 ∧ back.count (.tok .p) = 0 := by
    rcases hu with rfl | rfl
    · simp only [beq_self_eq_true, if_true] at hone
      omega
    · simp only [beq_self_eq_true, if_true] at hone
      omega
  constructor
  · exact hside front (fun pc hpc => List.mem_append_left _ hpc) hcounts.1 hcounts.2.1
  · exact hside back (fun pc hpc => List.mem_append_right _ (List.mem_cons_of_mem _ hpc))
      hcounts.2.2.1 hcounts.2.2.2

theorem pid_or_p_mem : .tok .pid ∈ t.pieces ∨ .tok .p ∈ t.pieces := by
  have hone := t.process
  by_contra hnone
  obtain ⟨hpid, hp⟩ := not_or.mp hnone
  rw [List.count_eq_zero.mpr hpid, List.count_eq_zero.mpr hp] at hone
  omega

theorem getGlob (pid : Int) :
    getGlobPatternFromGCPath t.text pid = t.pieces.flatMap (globOf pid) := by
  have hone := t.process
  exact getGlob_eq_flatMap (by omega) (by omega) pid

theorem percent_mem_text : percent ∈ t.text := by
  rcases t.pid_or_p_mem with h | h
  · exact List.mem_flatMap.mpr ⟨_, h, List.mem_cons_self⟩
  · exact List.mem_flatMap.mpr ⟨_, h, List.mem_cons_self⟩

theorem keepsApart (hpid : .tok .pid ∈ t.pieces) (hno : ¬ StarBeside t.pieces) :
    KeepsApart t.toTemplate := by
  obtain ⟨front, back, hps⟩ := List.append_of_mem hpid
  obtain ⟨hfront, hback⟩ := t.timed_sides (Or.inl rfl) hps
  intro q r hq hr hne path hpath
  rw [hps] at hno hpath
  have hglob := t.getGlob q
  rw [hps] at hglob
  have hapart : ∀ file, Matches (getGlobPatternFromGCPath t.text q) file → file ≠ path := by
    intro file hmatch hfile
    rw [hglob, ← List.append_nil (List.flatMap _ _)] at hmatch
    obtain ⟨taken, rest, hsplit, heats, hrest⟩ := eats_of_matches hmatch
    obtain rfl := matches_nil.mp hrest
    rw [List.append_nil] at hsplit
    rw [← hsplit, hfile] at heats
    exact hne (eq_of_eats hr hfront hback hno hpath heats)
  refine ⟨fun hmatch => hapart path hmatch rfl, ?_⟩
  intro σ sys sorter s hsound
  have hlatest : getLatestFileFromGlobPattern sys sorter (getGlobPatternFromGCPath t.text q) s ≠
      (path, none) := by
    intro hfound
    obtain ⟨files, hfiles, hmem⟩ := getLatest_mem hfound
    exact hapart path (hsound _ s files hfiles path hmem) rfl
  refine ⟨hlatest, ?_⟩
  intro hresolved
  rcases resolveTokens_cases sys sorter t.text q s with htext | hfirst | ⟨file, hsecond, htrim⟩
  · have hpattern := count_expands (c := percent) (by decide) hq hr hfront hback hpath
    have hnone : percent ∉ (front ++ .tok .pid :: back).flatMap (globOf q) := by
      intro hmem
      obtain ⟨pc, hpc, hin⟩ := List.mem_flatMap.mp hmem
      refine percent_not_mem_globOf ?_ hin
      intro b hb
      exact t.literal b (hps ▸ hb ▸ hpc)
    rw [List.count_eq_zero.mpr hnone] at hpattern
    have hmem := t.percent_mem_text
    rw [← htext, hresolved] at hmem
    exact absurd hmem (List.count_eq_zero.mp hpattern.symm)
  · rw [hresolved] at hfirst
    exact hlatest hfirst
  · obtain ⟨files, hfiles, hmem⟩ := getLatest_mem hsecond
    have hmatch := hsound _ s files hfiles file hmem
    rw [hglob] at hmatch
    exact hne
      (eq_of_matches_rotated hq hr hfront hback hno hpath hmatch (htrim.symm.trans hresolved))

end ProcessTemplate

/-! ## Where another process is found -/

theorem globOf_timed {q r : Int} {pc : Piece} (hpc : Timed pc) : globOf q pc = globOf r pc := by
  cases pc with
  | lit b => rfl
  | tok u =>
    cases u with
    | pid => exact absurd (show _ ∈ timeTokens from hpc) (by decide)
    | p => exact absurd (show _ ∈ timeTokens from hpc) (by decide)
    | _ => rfl

theorem matches_timed {q r : Int} {ps : List Piece} (hps : ∀ pc ∈ ps, Timed pc)
    {path pattern s : GoString} (hpath : Expands r ps path) (h : Matches pattern s) :
    Matches (ps.flatMap (globOf q) ++ pattern) (path ++ s) := by
  have hsame : ps.flatMap (globOf q) = ps.flatMap (globOf r) :=
    List.flatMap_congr fun pc hpc => globOf_timed (hps pc hpc)
  rw [hsame]
  exact matches_expands hpath h

/-- Digits that a literal byte of the pattern matches. -/
def byteDigits (b : Byte) : GoString :=
  if IsDigit b then [b] else if b = questionMark then str "0" else []

/-- Digits that the pattern of a loose piece matches. -/
def looseDigits : Piece → GoString
  | .lit b => byteDigits b
  | .tok u => shortest 1 (.tok u)

theorem isDigit_looseDigits {pc : Piece} (hpc : Loose pc) : ∀ b ∈ looseDigits pc, IsDigit b := by
  cases pc with
  | lit c =>
    show ∀ b ∈ byteDigits c, IsDigit b
    unfold byteDigits
    split
    · rename_i hc
      intro b hb
      rw [List.mem_singleton.mp hb]
      exact hc
    · split
      · decide
      · exact fun b hb => absurd hb List.not_mem_nil
  | tok u =>
    have hall : ∀ u ∈ digitTokens, ∀ b ∈ looseDigits (.tok u), IsDigit b := by decide
    exact hall u hpc

theorem timed_of_loose {pc : Piece} (hpc : Loose pc) : Timed pc := by
  cases pc with
  | lit b => trivial
  | tok u => exact List.mem_cons_of_mem _ hpc

theorem matches_looseDigits {q : Int} {ps : List Piece} (hps : ∀ pc ∈ ps, Loose pc)
    {pattern s : GoString} (h : Matches pattern s) :
    Matches (ps.flatMap (globOf q) ++ pattern) (ps.flatMap looseDigits ++ s) := by
  induction ps with
  | nil => exact h
  | cons pc ps ih =>
    obtain ⟨hpc, hrest⟩ := List.forall_mem_cons.mp hps
    rw [List.flatMap_cons, List.flatMap_cons, List.append_assoc, List.append_assoc]
    have hmatch := ih hrest
    cases pc with
    | lit b =>
      show Matches ([b] ++ _) (byteDigits b ++ _)
      rcases hpc with hdigit | rfl | rfl
      · rw [byteDigits, if_pos hdigit]
        exact matches_append_self [b] hmatch
      · exact matches_star.mpr ⟨[], _, rfl, List.not_mem_nil, hmatch⟩
      · exact matches_character (character_of_ascii (by decide) (by decide)) hmatch
    | tok u =>
      rw [globOf_timed (r := 1) (timed_of_loose hpc)]
      exact matches_globOf (expansion_shortest 1 (.tok u)) hmatch

theorem slash_not_mem_shortest {r : Int} {ps : List Piece} (hps : ∀ pc ∈ ps, Loose pc) :
    slash ∉ ps.flatMap (shortest r) := by
  intro h
  obtain ⟨pc, hpc, hmem⟩ := List.mem_flatMap.mp h
  cases pc with
  | lit b =>
    have hloose : IsDigit b ∨ IsMeta b := hps _ hpc
    rw [← List.mem_singleton.mp hmem] at hloose
    revert hloose
    decide
  | tok u =>
    have hbytes := shortest_tok_bytes r u slash hmem
    revert hbytes
    decide

/-- A process whose id has the digits of the loose pieces between two ones. -/
theorem exists_longer {ps : List Piece} (hps : ∀ pc ∈ ps, Loose pc) :
    ∃ r : Int, 0 < r ∧ (1 : Int) ≠ r ∧ itoa r = 49 :: (ps.flatMap looseDigits ++ [49]) := by
  have hdigits : ∀ b ∈ ps.flatMap looseDigits ++ [49], IsDigit b := by
    intro b hb
    rcases List.mem_append.mp hb with hb | hb
    · obtain ⟨pc, hpc, hmem⟩ := List.mem_flatMap.mp hb
      exact isDigit_looseDigits (hps pc hpc) b hmem
    · rw [List.mem_singleton.mp hb]
      decide
  have hone : IsDigit 49 := by decide
  obtain ⟨hpos, htext⟩ := decimal_digitsValue hone (by decide) hdigits
  have hitoa : itoa (digitsValue (49 :: (ps.flatMap looseDigits ++ [49])) : Int) =
      49 :: (ps.flatMap looseDigits ++ [49]) := by
    rw [itoa_of_nonneg (by omega), Int.toNat_natCast, htext]
  refine ⟨_, by omega, ?_, hitoa⟩
  intro hsame
  rw [← hsame] at hitoa
  have hlen := congrArg List.length hitoa
  rw [show itoa 1 = [49] from rfl] at hlen
  simp at hlen

namespace ProcessTemplate

variable (t : ProcessTemplate)

/-- Process 1 takes the log of another one. -/
theorem not_keepsApart {r : Int} (hr : 0 < r) (hne : (1 : Int) ≠ r) {path : GoString}
    (hpath : Expands r t.pieces path) (hmatch : Matches (t.pieces.flatMap (globOf 1)) path) :
    ¬ KeepsApart t.toTemplate := by
  intro h
  refine (h 1 r (by decide) hr hne path hpath).1 ?_
  rw [t.getGlob 1]
  exact hmatch

/-- A star in front of the digits takes the first ones of a longer process id. -/
theorem not_keepsApart_of_star_before {front between back : List Piece}
    (hbetween : ∀ pc ∈ between, Loose pc)
    (hps : t.pieces = front ++ .lit star :: (between ++ .tok .pid :: back)) :
    ¬ KeepsApart t.toTemplate := by
  have hsplit : t.pieces = (front ++ .lit star :: between) ++ .tok .pid :: back := by
    rw [hps]
    simp
  obtain ⟨hbefore, hback⟩ := t.timed_sides (Or.inl rfl) hsplit
  have hfront : ∀ pc ∈ front, Timed pc := fun pc hpc => hbefore pc (List.mem_append_left _ hpc)
  obtain ⟨r, hr, hne, hitoa⟩ := exists_longer hbetween
  have hpath := expands_shortest r t.pieces
  refine t.not_keepsApart hr hne hpath ?_
  have hrest := matches_timed (q := 1) hback (expands_shortest r back) (matches_nil.mpr rfl)
  have hid := matches_append_self (itoa 1) hrest
  have hdigits := matches_looseDigits (q := 1) hbetween hid
  have hno : slash ∉ star :: (between.flatMap (shortest r) ++ [49]) :=
    List.not_mem_cons_of_ne_of_not_mem (by decide)
      (List.not_mem_append (slash_not_mem_shortest hbetween) (by decide))
  have hstar := matches_star.mpr ⟨_, _, rfl, hno, hdigits⟩
  have hall := matches_timed (q := 1) hfront (expands_shortest r front) hstar
  rw [hps]
  simp only [List.flatMap_append, List.flatMap_cons]
  show Matches (_ ++ ([star] ++ (_ ++ (itoa 1 ++ _)))) (_ ++ ([star] ++ (_ ++ (itoa r ++ _))))
  rw [hitoa]
  simpa [show itoa 1 = [49] from rfl] using hall

/-- A star behind them takes the last ones. -/
theorem not_keepsApart_of_star_behind {front between back : List Piece}
    (hbetween : ∀ pc ∈ between, Loose pc)
    (hps : t.pieces = front ++ .tok .pid :: (between ++ .lit star :: back)) :
    ¬ KeepsApart t.toTemplate := by
  obtain ⟨hfront, hbehind⟩ := t.timed_sides (Or.inl rfl) hps
  have hback : ∀ pc ∈ back, Timed pc :=
    fun pc hpc => hbehind pc (List.mem_append_right _ (List.mem_cons_of_mem _ hpc))
  obtain ⟨r, hr, hne, hitoa⟩ := exists_longer hbetween
  have hpath := expands_shortest r t.pieces
  refine t.not_keepsApart hr hne hpath ?_
  have hrest := matches_timed (q := 1) hback (expands_shortest r back) (matches_nil.mpr rfl)
  have hno : slash ∉ 49 :: (between.flatMap (shortest r) ++ [star]) :=
    List.not_mem_cons_of_ne_of_not_mem (by decide)
      (List.not_mem_append (slash_not_mem_shortest hbetween) (by decide))
  have hstar := matches_star.mpr ⟨_, _, rfl, hno, hrest⟩
  have hdigits := matches_looseDigits (q := 1) hbetween hstar
  have hid := matches_append_self (itoa 1) hdigits
  have hall := matches_timed (q := 1) hfront (expands_shortest r front) hid
  rw [hps]
  simp only [List.flatMap_append, List.flatMap_cons]
  show Matches (_ ++ (itoa 1 ++ (_ ++ ([star] ++ _)))) (_ ++ (itoa r ++ (_ ++ ([star] ++ _))))
  rw [hitoa]
  simpa [show itoa 1 = [49] from rfl] using hall

/-- The star of `%p` takes them wherever it stands. -/
theorem not_keepsApart_of_p (hmem : .tok .p ∈ t.pieces) : ¬ KeepsApart t.toTemplate := by
  obtain ⟨front, back, hps⟩ := List.append_of_mem hmem
  obtain ⟨hfront, hback⟩ := t.timed_sides (Or.inr rfl) hps
  have hpath := expands_shortest 11 t.pieces
  refine t.not_keepsApart (r := 11) (by decide) (by decide) hpath ?_
  have hrest := matches_timed (q := 1) hback (expands_shortest 11 back) (matches_nil.mpr rfl)
  have hid := matches_append_self (itoa 1) hrest
  have hno : slash ∉ ([49] : GoString) := by decide
  have hstar := matches_star.mpr ⟨_, _, rfl, hno, hid⟩
  have hall := matches_timed (q := 1) hfront (expands_shortest 11 front) hstar
  rw [hps]
  simp only [List.flatMap_append, List.flatMap_cons]
  show Matches (_ ++ (star :: itoa 1 ++ _)) (_ ++ (itoa 11 ++ _))
  simpa [show itoa 1 = [49] from rfl, show itoa 11 = [49, 49] from rfl] using hall

end ProcessTemplate

/-- `gc.%p.log`. -/
def gcPLog : ProcessTemplate where
  pieces := lits (str "gc.") ++ .tok .p :: lits (str ".log")
  literal := by
    intro b hb
    have hmem : b ∈ str "gc." ∨ b ∈ str ".log" := by simpa using hb
    have hbytes : ∀ b ∈ str "gc." ++ str ".log", b ≠ percent := by decide
    exact hbytes b (List.mem_append.mpr hmem)
  noPid := by decide
  noTick := by decide
  process := by decide
  timed := by
    intro u hu
    obtain rfl : u = .p := by simpa using hu
    exact Or.inr (Or.inl rfl)

end YcAgent.Capture
