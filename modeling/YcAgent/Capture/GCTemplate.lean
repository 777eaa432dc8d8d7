import YcAgent.Base.Decimal
import YcAgent.Capture.GC

/-!
# Templates of GC log paths

The path a JVM is given for its GC log holds tokens. Seen as pieces, literal bytes and
tokens, each replacement of `GetGlobPatternFromGCPath` is a substitution for one token.
-/
namespace YcAgent.Capture

open Go

def percent : Byte := 37

inductive Token where
  | pid | p | t | seq | tick | uid | last | Y | y | m | d | H | M | S
  deriving DecidableEq

namespace Token

/-- The token without the percent sign. -/
def name : Token → GoString
  | pid => str "pid"
  | p => str "p"
  | t => str "t"
  | seq => str "seq"
  | tick => str "tick"
  | uid => str "uid"
  | last => str "last"
  | Y => str "Y"
  | y => str "y"
  | m => str "m"
  | d => str "d"
  | H => str "H"
  | M => str "M"
  | S => str "S"

def text (u : Token) : GoString := percent :: u.name

theorem percent_not_mem_name (u : Token) : percent ∉ u.name := by
  cases u <;> decide

/-- Two tokens start alike only where one of them is the start of the other. -/
theorem head?_name_eq {u v : Token} (hne : v ≠ u) (h : u.name.head? = v.name.head?) :
    (u = .pid ∧ v = .p) ∨ (u = .p ∧ v = .pid) ∨ (u = .tick ∧ v = .t) ∨ (u = .t ∧ v = .tick) := by
  revert hne h
  cases u <;> cases v <;> decide

theorem text_prefix_cases {u v : Token} (hne : v ≠ u) {rest : GoString}
    (h : u.text <+: v.text ++ rest) :
    (u = .pid ∧ v = .p ∧ str "id" <+: rest) ∨ (u = .p ∧ v = .pid) ∨
      (u = .tick ∧ v = .t ∧ str "ick" <+: rest) ∨ (u = .t ∧ v = .tick) := by
  have hname : u.name <+: v.name ++ rest := (List.cons_prefix_cons.mp h).2
  have hhead : u.name.head? = v.name.head? := by
    obtain ⟨tail, htail⟩ := hname
    have hheads := congrArg List.head? htail
    rw [List.head?_append, List.head?_append] at hheads
    revert hheads
    cases u <;> cases v <;> exact id
  rcases head?_name_eq hne hhead with ⟨rfl, rfl⟩ | h | ⟨rfl, rfl⟩ | h
  · exact Or.inl ⟨rfl, rfl, (List.cons_prefix_cons.mp hname).2⟩
  · exact Or.inr (Or.inl h)
  · exact Or.inr (Or.inr (Or.inl ⟨rfl, rfl, (List.cons_prefix_cons.mp hname).2⟩))
  · exact Or.inr (Or.inr (Or.inr h))

end Token

inductive Piece where
  | lit (b : Byte)
  | tok (u : Token)
  deriving DecidableEq

def Piece.text : Piece → GoString
  | .lit b => [b]
  | .tok u => u.text

def textOf (ps : List Piece) : GoString := ps.flatMap Piece.text

def lits (w : GoString) : List Piece := w.map .lit

@[simp] theorem textOf_nil : textOf [] = [] := rfl

@[simp] theorem textOf_cons (pc : Piece) (ps : List Piece) :
    textOf (pc :: ps) = pc.text ++ textOf ps :=
  List.flatMap_cons

@[simp] theorem textOf_append (ps qs : List Piece) : textOf (ps ++ qs) = textOf ps ++ textOf qs :=
  List.flatMap_append

@[simp] theorem textOf_lits (w : GoString) : textOf (lits w) = w := by
  induction w with
  | nil => rfl
  | cons b w ih =>
    show [b] ++ textOf (lits w) = b :: w
    rw [ih, List.singleton_append]

@[simp] theorem lit_mem_lits {b : Byte} {w : GoString} : .lit b ∈ lits w ↔ b ∈ w := by
  simp [lits]

@[simp] theorem tok_not_mem_lits (u : Token) (w : GoString) : .tok u ∉ lits w := by
  simp [lits]

/-- Literal bytes in front of a text are pieces in front of the list. -/
theorem lits_prefix_of_text {w : GoString} (hw : percent ∉ w) {ps : List Piece}
    (h : w <+: textOf ps) : lits w <+: ps := by
  induction w generalizing ps with
  | nil => exact List.nil_prefix
  | cons b w ih =>
    obtain ⟨hb, hrest⟩ := not_or.mp (mt List.mem_cons.mpr hw)
    cases ps with
    | nil => exact absurd (List.prefix_nil.mp h) (List.cons_ne_nil b w)
    | cons pc ps =>
      cases pc with
      | lit c =>
        obtain ⟨rfl, htail⟩ := List.cons_prefix_cons.mp h
        exact List.cons_prefix_cons.mpr ⟨rfl, ih hrest htail⟩
      | tok u => exact absurd (List.cons_prefix_cons.mp h).1.symm hb

/-! ## Substitution -/

def subst (u : Token) (new : GoString) : Piece → List Piece
  | .tok v => if v = u then lits new else [.tok v]
  | .lit b => [.lit b]

theorem subst_of_ne {u : Token} {pc : Piece} (h : pc ≠ .tok u) (new : GoString) :
    subst u new pc = [pc] := by
  cases pc with
  | lit b => rfl
  | tok v => rw [subst, if_neg (fun hv => h (by rw [hv]))]

def substAll (u : Token) (new : GoString) (ps : List Piece) : List Piece := ps.flatMap (subst u new)

def substFirst (u : Token) (new : GoString) : List Piece → List Piece
  | [] => []
  | pc :: ps => if pc = .tok u then lits new ++ ps else pc :: substFirst u new ps

/-- The text of the token is found nowhere but at the token. -/
def NoClash (u : Token) (ps : List Piece) : Prop :=
  ∀ v rest, .tok v :: rest <:+ ps → v ≠ u → ¬ u.text <+: v.text ++ textOf rest

def LiteralBytes (ps : List Piece) : Prop := ∀ b, .lit b ∈ ps → b ≠ percent

theorem NoClash.tail {u : Token} {pc : Piece} {ps : List Piece} (h : NoClash u (pc :: ps)) :
    NoClash u ps :=
  fun v rest hrest => h v rest (hrest.trans (List.suffix_cons pc ps))

theorem LiteralBytes.tail {pc : Piece} {ps : List Piece} (h : LiteralBytes (pc :: ps)) :
    LiteralBytes ps :=
  fun b hb => h b (List.mem_cons_of_mem pc hb)

theorem replaceAll_textOf {u : Token} {ps : List Piece} (hlit : LiteralBytes ps)
    (hno : NoClash u ps) (new : GoString) :
    replaceAll (textOf ps) u.text new = textOf (substAll u new ps) := by
  induction ps with
  | nil => rfl
  | cons pc ps ih =>
    have hrest := ih hlit.tail hno.tail
    rw [substAll, List.flatMap_cons, textOf_append, textOf_cons]
    cases pc with
    | lit b =>
      have hb : percent ∉ [b] := by
        intro h
        exact hlit b List.mem_cons_self (List.mem_singleton.mp h).symm
      rw [Token.text, Piece.text, replaceAll_append_of_not_mem hb]
      show [b] ++ replaceAll (textOf ps) u.text new = [b] ++ textOf (substAll u new ps)
      rw [hrest]
    | tok v =>
      by_cases hv : v = u
      · subst hv
        rw [Token.text, Piece.text, Token.text, replaceAll_append_self, subst, if_pos rfl,
          textOf_lits]
        exact congrArg (new ++ ·) hrest
      · have hclash : ¬ u.text <+: percent :: (v.name ++ textOf ps) :=
          hno v ps (List.suffix_refl _) hv
        rw [subst, if_neg hv]
        show replaceAll (percent :: (v.name ++ textOf ps)) u.text new = v.text ++ [] ++ _
        rw [replaceAll_cons_of_no_match hclash, List.append_nil]
        show percent :: replaceAll (v.name ++ textOf ps) (percent :: u.name) new = _
        rw [replaceAll_append_of_not_mem v.percent_not_mem_name]
        exact congrArg (v.text ++ ·) hrest

theorem replaceFirst_textOf {u : Token} {ps : List Piece} (hlit : LiteralBytes ps)
    (hno : NoClash u ps) (new : GoString) :
    replaceFirst u.text new (textOf ps) = textOf (substFirst u new ps) := by
  induction ps with
  | nil => rfl
  | cons pc ps ih =>
    have hrest := ih hlit.tail hno.tail
    rw [substFirst, textOf_cons]
    cases pc with
    | lit b =>
      have hb : percent ∉ [b] := by
        intro h
        exact hlit b List.mem_cons_self (List.mem_singleton.mp h).symm
      rw [Token.text, Piece.text, replaceFirst_append_of_not_mem hb]
      show [b] ++ replaceFirst u.text new (textOf ps) = [b] ++ textOf (substFirst u new ps)
      rw [hrest]
    | tok v =>
      by_cases hv : v = u
      · subst hv
        rw [if_pos rfl, Token.text, Piece.text, Token.text, replaceFirst_append_self, textOf_append,
          textOf_lits]
      · have hclash : ¬ u.text <+: percent :: (v.name ++ textOf ps) :=
          hno v ps (List.suffix_refl _) hv
        have hne : Piece.tok v ≠ .tok u := fun h => hv (Piece.tok.inj h)
        rw [if_neg hne, textOf_cons]
        show replaceFirst u.text new (percent :: (v.name ++ textOf ps)) = v.text ++ _
        rw [replaceFirst_cons_of_no_match hclash]
        show percent :: replaceFirst (percent :: u.name) new (v.name ++ textOf ps) = _
        rw [replaceFirst_append_of_not_mem v.percent_not_mem_name]
        exact congrArg (v.text ++ ·) hrest

/-- The pieces `pid` and `tick` of the tokens start with. -/
def pAndId : List Piece := .tok .p :: lits (str "id")
def tAndIck : List Piece := .tok .t :: lits (str "ick")

theorem NoClash.of {u : Token} {ps : List Piece} (hpid : u = .pid → ¬ pAndId <:+: ps)
    (hp : u = .p → .tok .pid ∉ ps) (htick : u = .tick → ¬ tAndIck <:+: ps)
    (ht : u = .t → .tok .tick ∉ ps) : NoClash u ps := by
  intro v rest hrest hne hprefix
  rcases Token.text_prefix_cases hne hprefix with ⟨hu, rfl, hid⟩ | ⟨hu, rfl⟩ | ⟨hu, rfl, hick⟩ |
    ⟨hu, rfl⟩
  · have hpieces : pAndId <+: .tok .p :: rest :=
      List.cons_prefix_cons.mpr ⟨rfl, lits_prefix_of_text (by decide) hid⟩
    exact hpid hu (hpieces.isInfix.trans hrest.isInfix)
  · exact hp hu (hrest.subset List.mem_cons_self)
  · have hpieces : tAndIck <+: .tok .t :: rest :=
      List.cons_prefix_cons.mpr ⟨rfl, lits_prefix_of_text (by decide) hick⟩
    exact htick hu (hpieces.isInfix.trans hrest.isInfix)
  · exact ht hu (hrest.subset List.mem_cons_self)

/-- The other tokens start like no token. -/
theorem NoClash.alone {u : Token} (hu : u ≠ .pid ∧ u ≠ .p ∧ u ≠ .tick ∧ u ≠ .t) (ps : List Piece) :
    NoClash u ps :=
  NoClash.of (fun h => absurd h hu.1) (fun h => absurd h hu.2.1) (fun h => absurd h hu.2.2.1)
    (fun h => absurd h hu.2.2.2)

theorem mem_subst {u : Token} {new : GoString} {pc qc : Piece} :
    qc ∈ subst u new pc ↔ (qc = pc ∧ pc ≠ .tok u) ∨ (pc = .tok u ∧ qc ∈ lits new) := by
  cases pc with
  | lit b => simp [subst]
  | tok v =>
    by_cases hv : v = u
    · simp [subst, hv]
    · simp [subst, hv]

theorem tok_mem_substAll {u v : Token} {new : GoString} {ps : List Piece} :
    .tok v ∈ substAll u new ps ↔ .tok v ∈ ps ∧ v ≠ u := by
  simp only [substAll, List.mem_flatMap, mem_subst, tok_not_mem_lits, and_false, or_false]
  constructor
  · intro h
    obtain ⟨pc, hpc, rfl, hne⟩ := h
    exact ⟨hpc, fun hv => hne (by rw [hv])⟩
  · intro h
    exact ⟨_, h.1, rfl, fun hpc => h.2 (Piece.tok.inj hpc)⟩

theorem LiteralBytes.substAll {u : Token} {new : GoString} {ps : List Piece} (h : LiteralBytes ps)
    (hnew : percent ∉ new) : LiteralBytes (substAll u new ps) := by
  intro b hb
  simp only [Capture.substAll, List.mem_flatMap, mem_subst, lit_mem_lits] at hb
  obtain ⟨pc, hpc, ⟨rfl, _⟩ | ⟨_, hmem⟩⟩ := hb
  · exact h b hpc
  · exact fun hpercent => hnew (hpercent ▸ hmem)

theorem mem_substFirst {u : Token} {new : GoString} {ps : List Piece} {qc : Piece}
    (h : qc ∈ substFirst u new ps) : qc ∈ ps ∨ qc ∈ lits new := by
  induction ps with
  | nil => exact Or.inl h
  | cons pc ps ih =>
    rw [substFirst] at h
    split at h
    · exact (List.mem_append.mp h).symm.imp_left (List.mem_cons_of_mem pc)
    · rcases List.mem_cons.mp h with rfl | h
      · exact Or.inl List.mem_cons_self
      · exact (ih h).imp_left (List.mem_cons_of_mem pc)

theorem LiteralBytes.substFirst {u : Token} {new : GoString} {ps : List Piece}
    (h : LiteralBytes ps) (hnew : percent ∉ new) : LiteralBytes (substFirst u new ps) := by
  intro b hb
  rcases mem_substFirst hb with hb | hb
  · exact h b hb
  · exact fun hpercent => hnew (hpercent ▸ lit_mem_lits.mp hb)

/-! ## Templates -/

/-- A text of literal bytes and tokens, read with the longest token wherever two fit. -/
structure Template where
  pieces : List Piece
  literal : LiteralBytes pieces
  noPid : ¬ pAndId <:+: pieces
  noTick : ¬ tAndIck <:+: pieces

def Template.text (t : Template) : GoString := textOf t.pieces

theorem infix_cons_of_not_mem {a : Piece} {l new ps : List Piece} (ha : a ∉ new)
    (h : a :: l <:+: new ++ ps) : a :: l <:+: ps := by
  induction new with
  | nil => exact h
  | cons b new ih =>
    obtain ⟨hb, hnew⟩ := not_or.mp (mt List.mem_cons.mpr ha)
    rcases List.infix_cons_iff.mp h with hfront | hrest
    · exact absurd (List.cons_prefix_cons.mp hfront).1 hb
    · exact ih hnew hrest

/-- The longest token in front of pieces that are already read that way. -/
theorem exists_cons (pc : Piece) (t : Template) (hpc : ∀ b, pc = .lit b → b ≠ percent) :
    ∃ t' : Template, t'.text = pc.text ++ t.text := by
  have htail {qs : List Piece} (hqs : qs <:+ t.pieces) (u : Token) (hp : u ≠ .p) (ht : u ≠ .t) :
      ∃ t' : Template, t'.pieces = .tok u :: qs := by
    refine ⟨⟨.tok u :: qs, ?_, ?_, ?_⟩, rfl⟩
    · intro b hb
      exact t.literal b (hqs.subset ((List.mem_cons.mp hb).resolve_left (by simp)))
    · intro h
      have hno : Piece.tok .p ∉ [Piece.tok u] := by simpa using Ne.symm hp
      exact t.noPid ((infix_cons_of_not_mem hno h).trans hqs.isInfix)
    · intro h
      have hno : Piece.tok .t ∉ [Piece.tok u] := by simpa using Ne.symm ht
      exact t.noTick ((infix_cons_of_not_mem hno h).trans hqs.isInfix)
  by_cases hpid : pAndId <+: pc :: t.pieces
  · obtain ⟨qs, hqs⟩ := hpid
    obtain ⟨rfl, hrest⟩ := List.cons.inj hqs
    obtain ⟨t', ht'⟩ := htail ⟨lits (str "id"), hrest⟩ .pid (by decide) (by decide)
    refine ⟨t', ?_⟩
    rw [Template.text, ht', Template.text, ← hrest]
    simp
    rfl
  · by_cases htick : tAndIck <+: pc :: t.pieces
    · obtain ⟨qs, hqs⟩ := htick
      obtain ⟨rfl, hrest⟩ := List.cons.inj hqs
      obtain ⟨t', ht'⟩ := htail ⟨lits (str "ick"), hrest⟩ .tick (by decide) (by decide)
      refine ⟨t', ?_⟩
      rw [Template.text, ht', Template.text, ← hrest]
      simp
      rfl
    · refine ⟨⟨pc :: t.pieces, ?_, ?_, ?_⟩, textOf_cons pc t.pieces⟩
      · intro b hb
        rcases List.mem_cons.mp hb with h | h
        · exact hpc b h.symm
        · exact t.literal b h
      · intro h
        exact (List.infix_cons_iff.mp h).elim hpid t.noPid
      · intro h
        exact (List.infix_cons_iff.mp h).elim htick t.noTick

/-- Literal bytes and tokens in any order make the text of a template. -/
theorem exists_template {ps : List Piece} (hlit : LiteralBytes ps) :
    ∃ t : Template, t.text = textOf ps := by
  induction ps with
  | nil => exact ⟨⟨[], hlit, by decide, by decide⟩, rfl⟩
  | cons pc ps ih =>
    obtain ⟨t, ht⟩ := ih hlit.tail
    have hpc : ∀ b, pc = .lit b → b ≠ percent := fun b hb => hlit b (hb ▸ List.mem_cons_self)
    obtain ⟨t', ht'⟩ := exists_cons pc t hpc
    exact ⟨t', by rw [ht', ht, textOf_cons]⟩

/-! ## What the replacements come to -/

/-- Tokens give way to pieces that hold no `%t` and begin with nothing that follows it in
`%tick`. -/
inductive Rewrites : List Piece → List Piece → Prop
  | nil : Rewrites [] []
  | keep (pc : Piece) {ps qs : List Piece} : Rewrites ps qs → Rewrites (pc :: ps) (pc :: qs)
  | replace (u : Token) {pc : Piece} {new ps qs : List Piece} (hpc : pc ∉ lits (str "ick"))
      (hnew : .tok .t ∉ pc :: new) : Rewrites ps qs → Rewrites (.tok u :: ps) (pc :: new ++ qs)

theorem Rewrites.refl (ps : List Piece) : Rewrites ps ps := by
  induction ps with
  | nil => exact .nil
  | cons pc ps ih => exact .keep pc ih

theorem Rewrites.front {ps qs : List Piece} (h : Rewrites ps qs) {w : GoString}
    (hw : ∀ b ∈ w, b ∈ str "ick") (hfront : lits w <+: qs) : lits w <+: ps := by
  induction h generalizing w with
  | nil => exact hfront
  | keep pc _ ih =>
    cases w with
    | nil => exact List.nil_prefix
    | cons b w =>
      obtain ⟨rfl, htail⟩ := List.cons_prefix_cons.mp hfront
      exact List.cons_prefix_cons.mpr ⟨rfl, ih (fun c hc => hw c (List.mem_cons_of_mem b hc)) htail⟩
  | replace u hpc _ _ _ =>
    cases w with
    | nil => exact List.nil_prefix
    | cons b w =>
      obtain ⟨rfl, _⟩ := List.cons_prefix_cons.mp hfront
      exact absurd (lit_mem_lits.mpr (hw b List.mem_cons_self)) hpc

/-- No new `%tick` comes up. -/
theorem Rewrites.noTick {ps qs : List Piece} (h : Rewrites ps qs) (hno : ¬ tAndIck <:+: ps) :
    ¬ tAndIck <:+: qs := by
  induction h with
  | nil => exact hno
  | keep pc hrest ih =>
    intro hin
    rcases List.infix_cons_iff.mp hin with hfront | htail
    · obtain ⟨rfl, hick⟩ := List.cons_prefix_cons.mp hfront
      have hback := hrest.front (fun _ hb => hb) hick
      exact hno (List.cons_prefix_cons.mpr ⟨rfl, hback⟩).isInfix
    · exact ih (fun hps => hno (hps.trans (List.suffix_cons _ _).isInfix)) htail
  | replace u _ hnew _ ih =>
    intro hin
    have htail := infix_cons_of_not_mem hnew hin
    exact ih (fun hps => hno (hps.trans (List.suffix_cons _ _).isInfix)) htail

theorem rewrites_substFirst {u : Token} {b : Byte} (hb : b ∉ str "ick") (w : GoString)
    (ps : List Piece) : Rewrites ps (substFirst u (b :: w) ps) := by
  induction ps with
  | nil => exact .nil
  | cons pc ps ih =>
    rw [substFirst]
    split
    · rename_i hpc
      subst hpc
      exact .replace u (by simpa using hb) (tok_not_mem_lits .t (b :: w)) (.refl ps)
    · exact .keep pc ih

theorem rewrites_substAll {u : Token} {b : Byte} (hb : b ∉ str "ick") (w : GoString)
    (ps : List Piece) : Rewrites ps (substAll u (b :: w) ps) := by
  induction ps with
  | nil => exact .nil
  | cons pc ps ih =>
    cases pc with
    | lit c => exact .keep _ ih
    | tok v =>
      rw [substAll, List.flatMap_cons, Capture.subst]
      split
      · exact .replace v (by simpa using hb) (tok_not_mem_lits .t (b :: w)) ih
      · exact .keep _ ih

/-- Behind the first `%pid` the text of another one is that of `%p` and two bytes. -/
def openPid : Piece → List Piece
  | .tok .pid => pAndId
  | pc => [pc]

theorem rewrites_openPid (ps : List Piece) : Rewrites ps (ps.flatMap openPid) := by
  induction ps with
  | nil => exact .nil
  | cons pc ps ih =>
    rw [List.flatMap_cons]
    unfold openPid
    split
    · exact .replace .pid (by decide) (by decide) ih
    · exact .keep pc ih

theorem textOf_openPid (ps : List Piece) : textOf (ps.flatMap openPid) = textOf ps := by
  induction ps with
  | nil => rfl
  | cons pc ps ih =>
    rw [List.flatMap_cons, textOf_append, ih, textOf_cons]
    unfold openPid
    split
    · rfl
    · simp

theorem mem_openPid {ps : List Piece} {qc : Piece} (h : qc ∈ ps.flatMap openPid) :
    (qc ∈ ps ∧ qc ≠ .tok .pid) ∨ qc ∈ pAndId := by
  obtain ⟨pc, hpc, hmem⟩ := List.mem_flatMap.mp h
  unfold openPid at hmem
  split at hmem
  · exact Or.inr hmem
  · rename_i hne
    obtain rfl := List.mem_singleton.mp hmem
    exact Or.inl ⟨hpc, hne⟩

def textWildcards (ps : List Piece) : List Piece :=
  substAll .last (str "*") (substAll .uid (str "*") (substAll .tick (str "*")
    (substAll .seq (str "???") ps)))

def dateWildcards (ps : List Piece) : List Piece :=
  substAll .S (str "??") (substAll .M (str "??") (substAll .H (str "??") (substAll .d (str "??")
    (substAll .m (str "??") (substAll .y (str "??") (substAll .Y (str "????")
      (substAll .t (str "????-??-??_??-??-??") ps)))))))

/-- The pieces of the pattern. A second `%p` is left over. -/
def globPieces (pid : Int) (ps : List Piece) : List Piece :=
  dateWildcards (substFirst .p (str "*" ++ itoa pid)
    (textWildcards ((substFirst .pid (itoa pid) ps).flatMap openPid)))

theorem percent_not_mem_itoa (n : Int) : percent ∉ itoa n := by
  intro h
  rcases itoa_bytes percent h with h | h
  · revert h
    decide
  · revert h
    decide

theorem itoa_cons (n : Int) : ∃ b w, itoa n = b :: w ∧ b ∉ str "ick" := by
  cases h : itoa n with
  | nil => exact absurd h (itoa_ne_nil n)
  | cons b w =>
    refine ⟨b, w, rfl, ?_⟩
    intro hb
    have hbyte := itoa_bytes b (h ▸ List.mem_cons_self)
    have hno : ∀ c ∈ str "ick", ¬ (IsDigit c ∨ c = 45) := by decide
    exact hno b hb hbyte

theorem literalBytes_openPid {ps : List Piece} (h : LiteralBytes ps) :
    LiteralBytes (ps.flatMap openPid) := by
  intro b hb
  rcases mem_openPid hb with hb | hb
  · exact h b hb.1
  · have hid : b ∈ str "id" := lit_mem_lits.mp ((List.mem_cons.mp hb).resolve_left (by simp))
    exact (by decide : ∀ b ∈ str "id", b ≠ percent) b hid

/-- One replacement in the chain, for a token that no other one starts like. -/
theorem replaceAll_alone {u : Token} {old new : GoString} {ps : List Piece} (hold : old = u.text)
    (hu : u ≠ .pid ∧ u ≠ .p ∧ u ≠ .tick ∧ u ≠ .t) (hnew : percent ∉ new) (hlit : LiteralBytes ps) :
    replaceAll (textOf ps) old new = textOf (substAll u new ps) ∧
      LiteralBytes (substAll u new ps) := by
  rw [hold]
  exact ⟨replaceAll_textOf hlit (NoClash.alone hu ps) new, hlit.substAll hnew⟩

theorem replaceAll_dates {ps : List Piece} (hlit : LiteralBytes ps) (hno : .tok .tick ∉ ps) :
    replaceAll (replaceAll (replaceAll (replaceAll (replaceAll (replaceAll (replaceAll (replaceAll
      (textOf ps) (str "%t") (str "????-??-??_??-??-??")) (str "%Y") (str "????"))
      (str "%y") (str "??")) (str "%m") (str "??")) (str "%d") (str "??"))
      (str "%H") (str "??")) (str "%M") (str "??")) (str "%S") (str "??") =
      textOf (dateWildcards ps) := by
  have hclash : NoClash .t ps :=
    NoClash.of (fun h => absurd h (by decide)) (fun h => absurd h (by decide))
      (fun h => absurd h (by decide)) (fun _ => hno)
  have ht : replaceAll (textOf ps) (str "%t") (str "????-??-??_??-??-??") =
      textOf (substAll .t (str "????-??-??_??-??-??") ps) := replaceAll_textOf hlit hclash _
  have lt : LiteralBytes (substAll .t (str "????-??-??_??-??-??") ps) := hlit.substAll (by decide)
  obtain ⟨hY, lY⟩ :=
    replaceAll_alone (u := .Y) rfl (by decide) (by decide : percent ∉ str "????") lt
  obtain ⟨hy, ly⟩ := replaceAll_alone (u := .y) rfl (by decide) (by decide : percent ∉ str "??") lY
  obtain ⟨hm, lm⟩ := replaceAll_alone (u := .m) rfl (by decide) (by decide : percent ∉ str "??") ly
  obtain ⟨hd, ld⟩ := replaceAll_alone (u := .d) rfl (by decide) (by decide : percent ∉ str "??") lm
  obtain ⟨hH, lH⟩ := replaceAll_alone (u := .H) rfl (by decide) (by decide : percent ∉ str "??") ld
  obtain ⟨hM, lM⟩ := replaceAll_alone (u := .M) rfl (by decide) (by decide : percent ∉ str "??") lH
  obtain ⟨hS, _⟩ := replaceAll_alone (u := .S) rfl (by decide) (by decide : percent ∉ str "??") lM
  rw [ht]
  show replaceAll (replaceAll (replaceAll (replaceAll (replaceAll (replaceAll (replaceAll
    (textOf (substAll .t (str "????-??-??_??-??-??") ps)) (Token.text .Y) (str "????"))
    (Token.text .y) (str "??")) (Token.text .m) (str "??")) (Token.text .d) (str "??"))
    (Token.text .H) (str "??")) (Token.text .M) (str "??")) (Token.text .S) (str "??") = _
  rw [hY, hy, hm, hd, hH, hM, hS, dateWildcards]

theorem tok_mem_textWildcards {v : Token} {ps : List Piece} :
    .tok v ∈ textWildcards ps ↔ .tok v ∈ ps ∧ v ≠ .seq ∧ v ≠ .tick ∧ v ≠ .uid ∧ v ≠ .last := by
  simp only [textWildcards, tok_mem_substAll, and_assoc]

theorem literalBytes_textWildcards {ps : List Piece} (hlit : LiteralBytes ps) :
    LiteralBytes (textWildcards ps) :=
  (((hlit.substAll (by decide)).substAll (by decide)).substAll (by decide)).substAll (by decide)

theorem replaceAll_texts {ps : List Piece} (hlit : LiteralBytes ps) (hno : ¬ tAndIck <:+: ps) :
    replaceAll (replaceAll (replaceAll (replaceAll (textOf ps) (str "%seq") (str "???"))
      (str "%tick") (str "*")) (str "%uid") (str "*")) (str "%last") (str "*") =
      textOf (textWildcards ps) := by
  obtain ⟨hseq, lseq⟩ :=
    replaceAll_alone (u := .seq) rfl (by decide) (by decide : percent ∉ str "???") hlit
  have hclash : NoClash .tick (substAll .seq (str "???") ps) :=
    NoClash.of (fun h => absurd h (by decide)) (fun h => absurd h (by decide))
      (fun _ => (rewrites_substAll (by decide) _ ps).noTick hno) (fun h => absurd h (by decide))
  have htick : replaceAll (textOf (substAll .seq (str "???") ps)) (str "%tick") (str "*") =
      textOf (substAll .tick (str "*") (substAll .seq (str "???") ps)) :=
    replaceAll_textOf lseq hclash _
  have ltick : LiteralBytes (substAll .tick (str "*") (substAll .seq (str "???") ps)) :=
    lseq.substAll (by decide)
  obtain ⟨huid, luid⟩ :=
    replaceAll_alone (u := .uid) rfl (by decide) (by decide : percent ∉ str "*") ltick
  obtain ⟨hlast, _⟩ :=
    replaceAll_alone (u := .last) rfl (by decide) (by decide : percent ∉ str "*") luid
  show replaceAll (replaceAll (replaceAll (replaceAll (textOf ps) (Token.text .seq) (str "???"))
    (str "%tick") (str "*")) (Token.text .uid) (str "*")) (Token.text .last) (str "*") = _
  rw [hseq, htick, huid, hlast, textWildcards]

/-- The function on the text is the substitution on the pieces. -/
theorem getGlob_text (t : Template) (pid : Int) :
    getGlobPatternFromGCPath t.text pid = textOf (globPieces pid t.pieces) := by
  obtain ⟨b, w, hitoa, hb⟩ := itoa_cons pid
  have hclash : NoClash .pid t.pieces :=
    NoClash.of (fun _ => t.noPid) (fun h => absurd h (by decide)) (fun h => absurd h (by decide))
      (fun h => absurd h (by decide))
  have hpid : replaceFirst (str "%pid") (itoa pid) t.text =
      textOf (substFirst .pid (itoa pid) t.pieces) := replaceFirst_textOf t.literal hclash _
  have lpid := literalBytes_openPid (t.literal.substFirst (u := .pid) (percent_not_mem_itoa pid))
  have hnone : .tok .pid ∉ (substFirst .pid (itoa pid) t.pieces).flatMap openPid := by
    intro h
    rcases mem_openPid h with h | h
    · exact h.2 rfl
    · revert h
      decide
  have htick : ¬ tAndIck <:+: (substFirst .pid (itoa pid) t.pieces).flatMap openPid := by
    rw [hitoa]
    exact (rewrites_openPid _).noTick ((rewrites_substFirst hb w t.pieces).noTick t.noTick)
  rw [← textOf_openPid] at hpid
  unfold getGlobPatternFromGCPath globPieces
  simp only [hpid]
  generalize (substFirst .pid (itoa pid) t.pieces).flatMap openPid = ps at lpid hnone htick ⊢
  have lwild := literalBytes_textWildcards lpid
  have hclashP : NoClash .p (textWildcards ps) :=
    NoClash.of (fun h => absurd h (by decide))
      (fun _ h => hnone (tok_mem_textWildcards.mp h).1) (fun h => absurd h (by decide))
      (fun h => absurd h (by decide))
  have hp : replaceFirst (str "%p") (str "*" ++ itoa pid) (textOf (textWildcards ps)) =
      textOf (substFirst .p (str "*" ++ itoa pid) (textWildcards ps)) :=
    replaceFirst_textOf lwild hclashP _
  have hstar : percent ∉ str "*" ++ itoa pid :=
    List.not_mem_append (by decide) (percent_not_mem_itoa pid)
  have hdates : .tok .tick ∉ substFirst .p (str "*" ++ itoa pid) (textWildcards ps) := by
    intro h
    have hmem := (mem_substFirst h).resolve_right (tok_not_mem_lits _ _)
    exact (tok_mem_textWildcards.mp hmem).2.2.1 rfl
  rw [replaceAll_texts lpid htick, hp, replaceAll_dates (lwild.substFirst hstar) hdates]

end YcAgent.Capture
