import YcAgent.Base.Lexicographic
import YcAgent.Capture.GCProcess

/-!
# The latest of several GC logs

`GetLatestFileFromGlobPattern` takes the greatest base name for the latest file. Whether it
is depends on the order of the tokens in the base name of the template.
-/
namespace YcAgent.Capture.GCLatest

open Go Go.FilePath Lexicographic

/-! ## Times -/

/-- The parts of a time. -/
inductive Field where
  | year | month | day | hour | minute | second
  deriving DecidableEq

namespace Field

/-- The most significant field comes first. -/
def rank : Field → ℕ
  | year => 0
  | month => 1
  | day => 2
  | hour => 3
  | minute => 4
  | second => 5

def least : Field → ℕ
  | year => 0
  | month => 1
  | day => 1
  | hour => 0
  | minute => 0
  | second => 0

def most : Field → ℕ
  | year => 9999
  | month => 12
  | day => 31
  | hour => 23
  | minute => 59
  | second => 59

def width : Field → ℕ
  | year => 4
  | _ => 2

theorem rank_injective : Function.Injective rank := by
  intro f g h
  revert h
  cases f <;> cases g <;> decide

theorem ne_of_rank_lt {f g : Field} (h : g.rank < f.rank) : g ≠ f := by
  rintro rfl
  exact Nat.lt_irrefl _ h

theorem most_lt (f : Field) : f.most < 10 ^ f.width := by
  cases f <;> decide

end Field

structure Time where
  value : Field → ℕ
  valid : ∀ f, f.least ≤ value f ∧ value f ≤ f.most

/-- The most significant field in which the times differ has less in the earlier one. -/
def Time.Before (a b : Time) : Prop :=
  ∃ f, a.value f < b.value f ∧ ∀ g, g.rank < f.rank → a.value g = b.value g

/-! ## Expansions at a time -/

/-- A template item by item: what is written of it depends on the time at one field at most. -/
inductive Item where
  | lit (b : Byte)
  | pid
  | field (f : Field)
  | shortYear
  | free (u : Token)
  deriving DecidableEq

/-- The tokens whose text the time and the process id leave open. -/
def freeTokens : List Token := [.seq, .tick, .uid, .last, .p]

def itemsOf : Piece → List Item
  | .lit b => [.lit b]
  | .tok .pid => [.pid]
  | .tok .t => [.field .year, .lit 45, .field .month, .lit 45, .field .day, .lit 95, .field .hour,
      .lit 45, .field .minute, .lit 45, .field .second]
  | .tok .Y => [.field .year]
  | .tok .y => [.shortYear]
  | .tok .m => [.field .month]
  | .tok .d => [.field .day]
  | .tok .H => [.field .hour]
  | .tok .M => [.field .minute]
  | .tok .S => [.field .second]
  | .tok .seq => [.free .seq]
  | .tok .tick => [.free .tick]
  | .tok .uid => [.free .uid]
  | .tok .last => [.free .last]
  | .tok .p => [.free .p]

def items (t : Template) : List Item := t.pieces.flatMap itemsOf

/-- A log of the process: when it was begun, and what its JVM writes for the free tokens. -/
structure Writing (pid : Int) where
  time : Time
  free : Token → GoString
  written : ∀ u ∈ freeTokens, Expansion pid (.tok u) (free u)

namespace Writing

variable {pid : Int}

def text (w : Writing pid) : Item → GoString
  | .lit b => [b]
  | .pid => itoa pid
  | .field f => padded f.width (w.time.value f)
  | .shortYear => padded 2 (w.time.value .year)
  | .free u => w.free u

def path (w : Writing pid) (t : Template) : GoString := (items t).flatMap w.text

def tokenText (w : Writing pid) (u : Token) : GoString := (itemsOf (.tok u)).flatMap w.text

/-- Some token of the template writes the two times differently. -/
def Distinguished (t : Template) (w w' : Writing pid) : Prop :=
  ∃ u ∈ timeTokens, .tok u ∈ t.pieces ∧ w.tokenText u ≠ w'.tokenText u

theorem value_lt (w : Writing pid) (f : Field) : w.time.value f < 10 ^ f.width :=
  Nat.lt_of_le_of_lt (w.time.valid f).2 f.most_lt

theorem digits_field (w : Writing pid) (f : Field) :
    Digits f.width (w.text (.field f)) := ⟨length_padded _ _, isDigit_of_mem_padded⟩

theorem digits_shortYear (w : Writing pid) : Digits 2 (w.text .shortYear) :=
  ⟨length_padded _ _, isDigit_of_mem_padded⟩

theorem expansion (w : Writing pid) (pc : Piece) :
    Expansion pid pc ((itemsOf pc).flatMap w.text) := by
  have hone (i : Item) : [i].flatMap w.text = w.text i := List.flatMap_singleton ..
  cases pc with
  | lit b => exact hone (.lit b)
  | tok u =>
    cases u with
    | pid => exact hone .pid
    | p =>
      rw [itemsOf, hone]
      exact w.written .p (by decide)
    | t =>
      refine ⟨_, _, _, _, _, _, w.digits_field .year, w.digits_field .month, w.digits_field .day,
        w.digits_field .hour, w.digits_field .minute, w.digits_field .second, ?_⟩
      simp only [itemsOf, List.flatMap_cons, List.flatMap_nil, List.append_nil, List.append_assoc]
      rfl
    | seq =>
      rw [itemsOf, hone]
      exact w.written .seq (by decide)
    | tick =>
      rw [itemsOf, hone]
      exact w.written .tick (by decide)
    | uid =>
      rw [itemsOf, hone]
      exact w.written .uid (by decide)
    | last =>
      rw [itemsOf, hone]
      exact w.written .last (by decide)
    | y => exact hone .shortYear ▸ w.digits_shortYear
    | Y => exact hone (.field .year) ▸ w.digits_field .year
    | m => exact hone (.field .month) ▸ w.digits_field .month
    | d => exact hone (.field .day) ▸ w.digits_field .day
    | H => exact hone (.field .hour) ▸ w.digits_field .hour
    | M => exact hone (.field .minute) ▸ w.digits_field .minute
    | S => exact hone (.field .second) ▸ w.digits_field .second

/-- What is written at a time is one of the paths the template can become. -/
theorem expands_path (w : Writing pid) (t : Template) : Expands pid t.pieces (w.path t) := by
  have hall : ∀ ps : List Piece, Expands pid ps ((ps.flatMap itemsOf).flatMap w.text) := by
    intro ps
    induction ps with
    | nil => rfl
    | cons pc ps ih =>
      rw [List.flatMap_cons, List.flatMap_append]
      exact ⟨_, _, rfl, w.expansion pc, ih⟩
  exact hall t.pieces

end Writing

/-! ## Fields in the path -/

/-- The items that are written from the time. -/
def Item.timed : Item → Bool
  | .lit _ => false
  | .pid => false
  | .field _ => true
  | .shortYear => true
  | .free _ => false

theorem timed_or_lit : ∀ u ∈ timeTokens, ∀ i ∈ itemsOf (.tok u),
    i.timed = true ∨ i = .lit 45 ∨ i = .lit 95 := by decide

def tokens : List Token := [.pid, .p, .t, .seq, .tick, .uid, .last, .Y, .y, .m, .d, .H, .M, .S]

theorem mem_tokens (u : Token) : u ∈ tokens := by
  cases u <;> decide

theorem exists_timeToken {pc : Piece} {i : Item} (hi : i ∈ itemsOf pc) (htimed : i.timed = true) :
    ∃ u ∈ timeTokens, pc = .tok u := by
  cases pc with
  | lit b =>
    rw [List.mem_singleton.mp hi] at htimed
    cases htimed
  | tok u =>
    refine ⟨u, ?_, rfl⟩
    have hall : ∀ v ∈ tokens, ∀ j ∈ itemsOf (.tok v), j.timed = true → v ∈ timeTokens := by decide
    exact hall u (mem_tokens u) i hi htimed

/-- The field is written in full or, the year, with two digits. -/
def Shown (l : List Item) (f : Field) : Prop := .field f ∈ l ∨ f = .year ∧ .shortYear ∈ l

section

variable {pid : Int} {t : Template} {w w' : Writing pid}

theorem length_text {i : Item} (htimed : i.timed = true) :
    (w.text i).length = (w'.text i).length := by
  cases i with
  | field f => rw [(w.digits_field f).1, (w'.digits_field f).1]
  | shortYear => rw [w.digits_shortYear.1, w'.digits_shortYear.1]
  | lit b => cases htimed
  | pid => cases htimed
  | free u => cases htimed

/-- Times are distinguished by an item of the path. -/
theorem Writing.distinguished_iff :
    Distinguished t w w' ↔ ∃ i ∈ items t, i.timed = true ∧ w.text i ≠ w'.text i := by
  constructor
  · intro h
    obtain ⟨u, hu, hmem, hne⟩ := h
    by_contra hnone
    push Not at hnone
    refine hne (List.flatMap_congr fun i hi => ?_)
    rcases timed_or_lit u hu i hi with htimed | rfl | rfl
    · exact hnone i (List.mem_flatMap.mpr ⟨_, hmem, hi⟩) htimed
    · rfl
    · rfl
  · intro h
    obtain ⟨i, hi, htimed, hne⟩ := h
    obtain ⟨pc, hpc, hmem⟩ := List.mem_flatMap.mp hi
    obtain ⟨u, hu, rfl⟩ := exists_timeToken hmem htimed
    refine ⟨u, hu, hpc, fun hsame => hne ?_⟩
    refine eq_of_flatMap_eq (fun j hj => ?_) hsame i hmem
    rcases timed_or_lit u hu j hj with htimed | rfl | rfl
    · exact length_text htimed
    · rfl
    · rfl

theorem exists_shown {i : Item} {l : List Item} (hi : i ∈ l) (htimed : i.timed = true)
    (hne : w.text i ≠ w'.text i) : ∃ f, Shown l f ∧ w.time.value f ≠ w'.time.value f := by
  cases i with
  | field f => exact ⟨f, Or.inl hi, fun h => hne (congrArg (padded f.width) h)⟩
  | shortYear => exact ⟨.year, Or.inr ⟨rfl, hi⟩, fun h => hne (congrArg (padded 2) h)⟩
  | lit b => cases htimed
  | pid => cases htimed
  | free u => cases htimed

theorem Writing.Distinguished.symm (h : Distinguished t w w') : Distinguished t w' w := by
  obtain ⟨u, hu, hmem, hne⟩ := h
  exact ⟨u, hu, hmem, hne.symm⟩

end

/-! ## The base name -/

/-- The items behind the last slash, without those at the end. -/
def baseItems (l : List Item) : List Item :=
  ((l.reverse.dropWhile (· == .lit slash)).takeWhile (· != .lit slash)).reverse

theorem baseItems_split (l : List Item) :
    ∃ front back, l = front ++ (baseItems l ++ back) ∧
      (front = [] ∨ ∃ d, front = d ++ [.lit slash]) ∧ (∀ i ∈ back, i = .lit slash) ∧
      .lit slash ∉ baseItems l := by
  have hends := List.takeWhile_append_dropWhile (p := (· == Item.lit slash)) (l := l.reverse)
  have hname := List.takeWhile_append_dropWhile (p := (· != Item.lit slash))
    (l := l.reverse.dropWhile (· == .lit slash))
  have hfirst := List.head?_dropWhile_not (· != Item.lit slash)
    (l.reverse.dropWhile (· == .lit slash))
  generalize hrest : (l.reverse.dropWhile (· == Item.lit slash)).dropWhile (· != .lit slash) = rest
    at hname hfirst
  refine ⟨rest.reverse, (l.reverse.takeWhile (· == .lit slash)).reverse, ?_, ?_, ?_, ?_⟩
  · rw [baseItems, ← List.reverse_append, ← List.reverse_append, List.append_assoc, hname, hends,
      List.reverse_reverse]
  · cases rest with
    | nil => exact Or.inl rfl
    | cons i rest =>
      obtain rfl : i = .lit slash := by simpa using hfirst
      exact Or.inr ⟨rest.reverse, List.reverse_cons⟩
  · intro i hi
    simpa using List.mem_takeWhile_imp (List.mem_reverse.mp hi)
  · intro h
    simpa using List.mem_takeWhile_imp (List.mem_reverse.mp h)

theorem mem_of_mem_baseItems {i : Item} {l : List Item} (h : i ∈ baseItems l) : i ∈ l := by
  obtain ⟨front, back, hl, -, -, -⟩ := baseItems_split l
  rw [hl]
  exact List.mem_append_right _ (List.mem_append_left _ h)

/-- Only of slashes nothing is left. -/
theorem baseItems_ne_nil {i : Item} {l : List Item} (hi : i ∈ l) (hne : i ≠ .lit slash) :
    baseItems l ≠ [] := by
  have hhead := List.head?_dropWhile_not (· == Item.lit slash) l.reverse
  rw [baseItems, ne_eq, List.reverse_eq_nil_iff]
  cases hrest : l.reverse.dropWhile (· == Item.lit slash) with
  | nil =>
    rw [List.dropWhile_eq_nil_iff] at hrest
    exact absurd (hrest i (List.mem_reverse.mpr hi)) (by simpa using hne)
  | cons j rest =>
    rw [hrest] at hhead
    have hj : (j != .lit slash) = true := by simpa using hhead
    rw [List.takeWhile_cons, if_pos hj]
    exact List.cons_ne_nil _ _

section

variable {pid : Int} (w : Writing pid)

theorem slash_not_mem_digits {n : ℕ} {x : GoString} (hx : Digits n x) : slash ∉ x :=
  fun h => (isDigit_ascii (hx.2 slash h)).2 rfl

theorem slash_not_mem_itoa (n : Int) : slash ∉ itoa n :=
  not_mem_itoa (by decide) (by decide) n

theorem slash_not_mem_free {u : Token} (hu : u ∈ freeTokens) : slash ∉ w.free u := by
  have hwritten := w.written u hu
  simp only [freeTokens, List.mem_cons, List.not_mem_nil, or_false] at hu
  rcases hu with rfl | rfl | rfl | rfl | rfl
  · obtain ⟨a, b, c, ha, hb, hc, habc⟩ := hwritten
    rw [habc]
    exact List.not_mem_append (List.not_mem_append ha.2 hb.2) hc.2
  · exact hwritten
  · exact hwritten
  · exact hwritten
  · rcases hwritten with h | h
    · rw [h]
      exact slash_not_mem_itoa pid
    · rw [h]
      exact List.not_mem_append (by decide) (slash_not_mem_itoa pid)

theorem slash_not_mem_text {i : Item} (hfree : ∀ u, i = .free u → u ∈ freeTokens)
    (hi : i ≠ .lit slash) : slash ∉ w.text i := by
  cases i with
  | lit b =>
    intro h
    exact hi (congrArg Item.lit (List.mem_singleton.mp h).symm)
  | pid => exact slash_not_mem_itoa pid
  | field f => exact slash_not_mem_digits (w.digits_field f)
  | shortYear => exact slash_not_mem_digits w.digits_shortYear
  | free u => exact slash_not_mem_free w (hfree u rfl)

/-- The base name is written from the items behind the last slash. -/
theorem base_flatMap {l : List Item} (hfree : ∀ u, .free u ∈ l → u ∈ freeTokens)
    (hne : (baseItems l).flatMap w.text ≠ []) :
    base (l.flatMap w.text) = (baseItems l).flatMap w.text := by
  obtain ⟨front, back, hl, hfront, hback, hno⟩ := baseItems_split l
  have hname : slash ∉ (baseItems l).flatMap w.text := by
    intro h
    obtain ⟨i, hi, hmem⟩ := List.mem_flatMap.mp h
    have hlit : i ≠ .lit slash := fun heq => hno (heq ▸ hi)
    refine slash_not_mem_text w (fun u hu => ?_) hlit hmem
    exact hfree u (hu ▸ mem_of_mem_baseItems hi)
  have hends : ∀ b ∈ back.flatMap w.text, b = slash := by
    intro b hb
    obtain ⟨i, hi, hmem⟩ := List.mem_flatMap.mp hb
    rw [hback i hi] at hmem
    exact List.mem_singleton.mp hmem
  have hbehind : front.flatMap w.text = [] ∨ ∃ d, front.flatMap w.text = d ++ [slash] := by
    rcases hfront with rfl | ⟨d, rfl⟩
    · exact Or.inl rfl
    · exact Or.inr ⟨d.flatMap w.text, by rw [List.flatMap_append]; rfl⟩
  have hbase := base_append hbehind hname hne hends
  rwa [← List.flatMap_append, ← List.flatMap_append, ← hl] at hbase

end

/-! ## The order of the tokens -/

/-- The free tokens whose text differs between files; of `%p` it may be the same in all. -/
def Varies (oneForm : Bool) (u : Token) : Prop := u ≠ .p ∨ oneForm = false

/-- In the base name each field stands behind the more significant ones, the short year
behind the year, and free text behind everything the path shows of the time. -/
structure Ordered (oneForm : Bool) (l : List Item) : Prop where
  significant : ∀ f g, g.rank < f.rank → Leads (.field g) (.field f) (baseItems l)
  century : Leads (.field .year) .shortYear (baseItems l)
  settled : ∀ f u, Shown l f → Varies oneForm u → Leads (.field f) (.free u) (baseItems l)
  named : ∀ f, Shown l f → .field f ∈ baseItems l

section

variable {pid : Int} {oneForm : Bool} {l : List Item} {w w' : Writing pid}

theorem text_field_lt {f : Field} (h : w.time.value f < w'.time.value f) :
    w.text (.field f) < w'.text (.field f) := padded_lt h (w'.value_lt f)

/-- The most significant field that differs stands in the base name. -/
theorem Ordered.field_mem (h : Ordered oneForm l) {f g : Field} (hf : Shown l f)
    (hdiff : w.time.value f ≠ w'.time.value f)
    (hsame : ∀ e, e.rank < g.rank → w.time.value e = w'.time.value e) :
    .field g ∈ baseItems l := by
  have hmem := h.named f hf
  rcases Nat.lt_trichotomy f.rank g.rank with hlt | heq | hgt
  · exact absurd (hsame f hlt) hdiff
  · rwa [← Field.rank_injective heq]
  · exact (h.significant f g hgt).mem hmem

/-- Up to the most significant field that differs everything is written alike. -/
theorem Ordered.text_eq (h : Ordered oneForm l) {g : Field} {front back : List Item}
    (hl : baseItems l = front ++ back) (hg : Shown l g) (hfront : .field g ∉ front)
    (hp : oneForm = true → w.free .p = w'.free .p)
    (hsame : ∀ e, e.rank < g.rank → w.time.value e = w'.time.value e) :
    ∀ i ∈ front, w.text i = w'.text i := by
  intro i hi
  have hvalue : ∀ f, .field f ∈ front → w.time.value f = w'.time.value f := by
    intro f hf
    rcases Nat.lt_trichotomy f.rank g.rank with hlt | heq | hgt
    · exact hsame f hlt
    · rw [Field.rank_injective heq] at hf
      exact absurd hf hfront
    · have hled := h.significant f g hgt
      rw [hl] at hled
      exact absurd hf (hled.not_mem hfront)
  cases i with
  | lit b => rfl
  | pid => rfl
  | field f => exact congrArg (padded f.width) (hvalue f hi)
  | shortYear =>
    have hled := h.century
    rw [hl] at hled
    have hyear : .field .year ∈ front := by
      by_contra hno
      exact hled.not_mem hno hi
    exact congrArg (padded 2) (hvalue .year hyear)
  | free u =>
    by_cases hvaries : Varies oneForm u
    · have hled := h.settled g u hg hvaries
      rw [hl] at hled
      exact absurd hi (hled.not_mem hfront)
    · obtain ⟨hu, hform⟩ := not_or.mp hvaries
      rw [not_not.mp hu]
      exact hp (by simpa using hform)

/-- Base names are ordered as the times. -/
theorem Ordered.lt_of_before (h : Ordered oneForm l) {f : Field} (hf : Shown l f)
    (hdiff : w.time.value f ≠ w'.time.value f) (hp : oneForm = true → w.free .p = w'.free .p)
    (hbefore : w.time.Before w'.time) :
    (baseItems l).flatMap w.text < (baseItems l).flatMap w'.text := by
  obtain ⟨g, hlt, hsame⟩ := hbefore
  have hmem := h.field_mem hf hdiff hsame
  obtain ⟨front, back, hl, hfront⟩ := List.eq_append_cons_of_mem hmem
  have hg : Shown l g := Or.inl (mem_of_mem_baseItems hmem)
  have htext := h.text_eq hl hg hfront hp hsame
  rw [hl]
  exact flatMap_lt htext (append_lt_append (length_text rfl) (text_field_lt hlt)) back

end

/-! ## The latest file -/

/-- What the glob package finds of the files are those its pattern matches, the function
returns the one with the latest time. With `oneForm` all files write `%p` alike. -/
def ChoosesLatest (matching : GoString → GoString → Bool) (oneForm : Bool) (t : Template)
    (pid : Int) : Prop :=
  ∀ files : List (Writing pid), files ≠ [] → files.Pairwise (Writing.Distinguished t) →
    (oneForm = true → ∀ w ∈ files, ∀ w' ∈ files, w.free .p = w'.free .p) →
    ∀ {σ : Type} (sys : System σ) (sorter : SortSlice) (s : σ) (found : List GoString),
      sys.glob (getGlobPatternFromGCPath t.text pid) s = .ok found →
      found.Perm ((files.map fun w => w.path t).filter
        (matching (getGlobPatternFromGCPath t.text pid))) →
      ∃ w ∈ files, (∀ w' ∈ files, ¬ w.time.Before w'.time) ∧
        getLatestFileFromGlobPattern sys sorter (getGlobPatternFromGCPath t.text pid) s =
          (w.path t, none)

/-- The pattern of the template matches whatever is written for it. -/
def Matched (matching : GoString → GoString → Bool) (t : Template) (pid : Int) : Prop :=
  ∀ w : Writing pid, matching (getGlobPatternFromGCPath t.text pid) (w.path t) = true

theorem baseName_order : StrictOrder fun a b : GoString => decide (base b < base a) where
  trans a b c hab hbc := by
    rw [decide_eq_false_iff_not, List.not_lt] at hab hbc ⊢
    exact List.le_trans hbc hab
  total a b := by
    rw [decide_eq_false_iff_not, decide_eq_false_iff_not, List.not_lt, List.not_lt]
    exact List.le_total _ _

theorem free_mem_items {t : Template} {u : Token} (h : .free u ∈ items t) : u ∈ freeTokens := by
  obtain ⟨pc, -, hmem⟩ := List.mem_flatMap.mp h
  cases pc with
  | lit b => cases List.mem_singleton.mp hmem
  | tok v =>
    have hall : ∀ v ∈ tokens, ∀ u ∈ tokens, .free u ∈ itemsOf (.tok v) → u ∈ freeTokens := by
      decide
    exact hall v (mem_tokens v) u (mem_tokens u) hmem

section

variable {matching : GoString → GoString → Bool} {oneForm : Bool} {t : Template} {pid : Int}
  {w w' : Writing pid}

theorem base_path (w : Writing pid) (hne : (baseItems (items t)).flatMap w.text ≠ []) :
    base (w.path t) = (baseItems (items t)).flatMap w.text :=
  base_flatMap w (fun _ => free_mem_items) hne

theorem text_field_ne_nil (w : Writing pid) (f : Field) : w.text (.field f) ≠ [] := by
  intro h
  have hlen := (w.digits_field f).1
  rw [h] at hlen
  revert hlen
  cases f <;> decide

theorem Ordered.base_lt (h : Ordered oneForm (items t)) (hdist : Writing.Distinguished t w w')
    (hp : oneForm = true → w.free .p = w'.free .p) (hbefore : w.time.Before w'.time) :
    base (w.path t) < base (w'.path t) := by
  obtain ⟨i, hi, htimed, hne⟩ := Writing.distinguished_iff.mp hdist
  obtain ⟨f, hf, hdiff⟩ := exists_shown hi htimed hne
  have hname (v : Writing pid) : (baseItems (items t)).flatMap v.text ≠ [] := by
    intro hnil
    exact text_field_ne_nil v f (List.flatMap_eq_nil_iff.mp hnil _ (h.named f hf))
  rw [base_path w (hname w), base_path w' (hname w')]
  exact h.lt_of_before hf hdiff hp hbefore

theorem Ordered.choosesLatest (h : Ordered oneForm (items t)) (hmatched : Matched matching t pid) :
    ChoosesLatest matching oneForm t pid := by
  intro files hne hdist hp σ sys sorter s found hglob hfound
  have hall : (files.map fun w => w.path t).filter
      (matching (getGlobPatternFromGCPath t.text pid)) = files.map fun w => w.path t := by
    refine List.filter_eq_self.mpr fun path hpath => ?_
    obtain ⟨w, -, rfl⟩ := List.mem_map.mp hpath
    exact hmatched w
  rw [hall] at hfound
  have hsome : found ≠ [] := by
    intro hnil
    rw [hnil] at hfound
    exact hne (List.map_eq_nil_iff.mp hfound.symm.eq_nil)
  obtain ⟨file, rest, hsort⟩ := List.exists_cons_of_ne_nil
    (sorter.sort_ne_nil (fun a b => decide (base b < base a)) hsome)
  obtain ⟨hfile, hfirst⟩ := sorter.head_sort baseName_order hsort
  obtain ⟨w, hw, rfl⟩ := List.mem_map.mp (hfound.mem_iff.mp hfile)
  refine ⟨w, hw, ?_, ?_⟩
  · intro w' hw' hbefore
    have hdiff : w ≠ w' := by
      rintro rfl
      obtain ⟨f, hlt, -⟩ := hbefore
      omega
    have hsymm : Std.Symm (@Writing.Distinguished pid t) :=
      ⟨fun _ _ => Writing.Distinguished.symm⟩
    have hapart := hdist.forall hw hw' hdiff
    have hlt := h.base_lt hapart (fun hform => hp hform w hw w' hw') hbefore
    have hnot := hfirst _ (hfound.mem_iff.mpr (List.mem_map_of_mem hw'))
    exact absurd hlt (by simpa using hnot)
  · rw [getLatestFileFromGlobPattern, hglob]
    simp only [hsort]

/-! ## Where another file is chosen -/

/-- A system on which the glob package finds these files. -/
def finding (found : List GoString) : System Unit where
  linux := true
  tempDir := str "/tmp"
  glob _ _ := .ok found
  stat _ _ := .error ⟨str "file does not exist", true⟩
  lstat _ _ := .error ⟨str "file does not exist", true⟩
  openFile _ _ := some ⟨str "file does not exist", true⟩
  readDirNames _ _ := .ok []
  create _ _ := .ok ()
  appendFrom _ _ _ := (none, ())
  dockerCopy _ _ _ := (none, ())
  dockerExecute _ _ := .ok []

theorem getLatest_finding {found rest : List GoString} {file pattern : GoString}
    {sorter : SortSlice}
    (h : sorter.sort (fun a b => decide (base b < base a)) found = file :: rest) :
    getLatestFileFromGlobPattern (finding found) sorter pattern () = (file, none) := by
  rw [getLatestFileFromGlobPattern]
  simp only [finding, h]

theorem ChoosesLatest.matched (h : ChoosesLatest matching oneForm t pid) :
    Matched matching t pid := by
  intro w
  by_contra hno
  have hnone : ([w].map fun w => w.path t).filter
      (matching (getGlobPatternFromGCPath t.text pid)) = [] := by
    rw [List.map_singleton, List.filter_cons_of_neg hno, List.filter_nil]
  have hforms : oneForm = true → ∀ v ∈ [w], ∀ v' ∈ [w], v.free .p = v'.free .p := by
    intro _ v hv v' hv'
    rw [List.mem_singleton.mp hv, List.mem_singleton.mp hv']
  obtain ⟨v, -, -, hv⟩ := h [w] (List.cons_ne_nil _ _) (List.pairwise_singleton _ _) hforms
    (finding []) SortSlice.stable () [] rfl (by rw [hnone])
  rw [getLatestFileFromGlobPattern] at hv
  simp only [finding, SortSlice.sort_nil] at hv
  exact Option.some_ne_none _ (congrArg Prod.snd hv)

/-- Of two files the earlier one has the smaller base name. -/
theorem ChoosesLatest.base_lt (h : ChoosesLatest matching oneForm t pid)
    (hbefore : w.time.Before w'.time) (hdist : Writing.Distinguished t w w')
    (hp : oneForm = true → w.free .p = w'.free .p) (hne : w.path t ≠ w'.path t) :
    base (w.path t) < base (w'.path t) := by
  by_contra hnot
  have hall : ([w, w'].map fun w => w.path t).filter
      (matching (getGlobPatternFromGCPath t.text pid)) = [w.path t, w'.path t] :=
    List.filter_eq_self.mpr fun path hpath => by
      obtain ⟨v, -, rfl⟩ := List.mem_map.mp hpath
      exact h.matched v
  have hforms : oneForm = true → ∀ v ∈ [w, w'], ∀ v' ∈ [w, w'], v.free .p = v'.free .p := by
    intro hform
    have hsame := hp hform
    simp [hsame]
  have hleast : ∀ file ∈ [w.path t, w'.path t],
      decide (base (w.path t) < base file) = false := by
    intro file hfile
    rw [decide_eq_false_iff_not]
    rcases List.mem_cons.mp hfile with rfl | hfile
    · exact List.lt_irrefl _
    · rwa [List.mem_singleton.mp hfile]
  obtain ⟨sorter, rest, hsort⟩ :=
    SortSlice.exists_head_eq baseName_order List.mem_cons_self hleast
  obtain ⟨v, hv, hlatest, hchosen⟩ := h [w, w'] (List.cons_ne_nil _ _)
    (List.pairwise_pair.mpr hdist) hforms (finding _) sorter () _ rfl (by rw [hall])
  rw [getLatest_finding hsort] at hchosen
  have hpath : w.path t = v.path t := congrArg Prod.fst hchosen
  rcases List.mem_cons.mp hv with rfl | hv
  · exact hlatest w' (List.mem_cons_of_mem _ List.mem_cons_self) hbefore
  · rw [List.mem_singleton.mp hv] at hpath
    exact hne hpath

end

/-! ## Files that are taken in the wrong order -/

namespace Field

/-- The two years that are written `99` and `00`. -/
def low : Field → ℕ
  | year => 1999
  | _ => 1

def high : Field → ℕ
  | year => 2000
  | _ => 2

theorem low_lt_high (f : Field) : f.low < f.high := by
  cases f <;> decide

end Field

/-- The time with the high values at these fields. -/
def Time.pick (late : Field → Bool) : Time where
  value f := if late f then f.high else f.low
  valid := by
    intro f
    cases late f
    · cases f <;> decide
    · cases f <;> decide

def lowText (pid : Int) : Token → GoString
  | .seq => str "001"
  | .p => itoa pid
  | _ => str "a"

def highText (pid : Int) : Token → GoString
  | .seq => str "002"
  | .p => str "pid" ++ itoa pid
  | _ => str "b"

theorem expansion_lowText (pid : Int) :
    ∀ u ∈ freeTokens, Expansion pid (.tok u) (lowText pid u) := by
  have hseq : Digits 3 (str "001") := by decide
  have hname : slash ∉ str "a" := by decide
  intro u hu
  simp only [freeTokens, List.mem_cons, List.not_mem_nil, or_false] at hu
  rcases hu with rfl | rfl | rfl | rfl | rfl
  · exact expansion_seq hseq
  · exact hname
  · exact hname
  · exact hname
  · exact Or.inl rfl

theorem expansion_highText (pid : Int) :
    ∀ u ∈ freeTokens, Expansion pid (.tok u) (highText pid u) := by
  have hseq : Digits 3 (str "002") := by decide
  have hname : slash ∉ str "b" := by decide
  intro u hu
  simp only [freeTokens, List.mem_cons, List.not_mem_nil, or_false] at hu
  rcases hu with rfl | rfl | rfl | rfl | rfl
  · exact expansion_seq hseq
  · exact hname
  · exact hname
  · exact hname
  · exact Or.inr rfl

def Writing.pick (pid : Int) (late : Field → Bool) (raised : Token → Bool) : Writing pid where
  time := .pick late
  free u := if raised u then highText pid u else lowText pid u
  written := by
    intro u hu
    cases raised u
    · exact expansion_lowText pid u hu
    · exact expansion_highText pid u hu

section

variable {matching : GoString → GoString → Bool} {oneForm : Bool} {t : Template} {pid : Int}
  {late late' : Field → Bool} {raised raised' : Token → Bool}

theorem pick_value (f : Field) :
    (Writing.pick pid late raised).time.value f = if late f then f.high else f.low := rfl

theorem pick_before {f : Field} (hf : late f = false) (hf' : late' f = true)
    (hsame : ∀ g, g.rank < f.rank → late g = late' g) :
    (Writing.pick pid late raised).time.Before (Writing.pick pid late' raised').time := by
  refine ⟨f, ?_, fun g hg => ?_⟩
  · rw [pick_value, pick_value, hf, hf']
    exact f.low_lt_high
  · rw [pick_value, pick_value, hsame g hg]

theorem pick_text_eq {l : List Item} (hfield : ∀ f, .field f ∈ l → late f = late' f)
    (hshort : .shortYear ∈ l → late .year = late' .year)
    (hfree : ∀ u, .free u ∈ l → raised u = raised' u) :
    ∀ i ∈ l, (Writing.pick pid late raised).text i = (Writing.pick pid late' raised').text i := by
  intro i hi
  cases i with
  | lit b => rfl
  | pid => rfl
  | field f => simp only [Writing.text, pick_value, hfield f hi]
  | shortYear => simp only [Writing.text, pick_value, hshort hi]
  | free u => simp only [Writing.text, Writing.pick, hfree u hi]

theorem pick_field_lt {f : Field} (hf : late f = false) (hf' : late' f = true) :
    (Writing.pick pid late raised).text (.field f) <
      (Writing.pick pid late' raised').text (.field f) := by
  refine text_field_lt ?_
  rw [pick_value, pick_value, hf, hf']
  exact f.low_lt_high

/-- `00` for the year behind that of `99`. -/
theorem pick_shortYear_lt (hyear : late .year = false) (hyear' : late' .year = true) :
    (Writing.pick pid late' raised').text .shortYear <
      (Writing.pick pid late raised).text .shortYear := by
  simp only [Writing.text, pick_value, hyear, hyear']
  decide

theorem lowText_lt_highText (u : Token) (x y : GoString) :
    lowText pid u ++ x < highText pid u ++ y := by
  have hseq : str "001" < str "002" := by decide
  have hname : str "a" < str "b" := by decide
  cases u with
  | seq => exact append_lt_append (by rfl) hseq x y
  | p =>
    obtain ⟨b, rest, hitoa⟩ := List.exists_cons_of_ne_nil (itoa_ne_nil pid)
    have hb : b < 112 := by
      rcases itoa_bytes b (hitoa ▸ List.mem_cons_self) with hdigit | rfl
      · exact UInt8.lt_of_le_of_lt hdigit.2 (by decide)
      · decide
    rw [lowText, hitoa]
    exact List.cons_lt_cons_iff.mpr (Or.inl hb)
  | _ => exact append_lt_append (by rfl) hname x y

theorem pick_free_lt {u : Token} (hu : raised u = true) (hu' : raised' u = false) (x y : GoString) :
    (Writing.pick pid late' raised').text (.free u) ++ x <
      (Writing.pick pid late raised).text (.free u) ++ y := by
  simp only [Writing.text, Writing.pick, hu, hu']
  exact lowText_lt_highText u x y

theorem pick_distinguished {f : Field} (hf : Shown (items t) f) (hlate : late f = false)
    (hlate' : late' f = true) :
    Writing.Distinguished t (Writing.pick pid late raised) (Writing.pick pid late' raised') := by
  rw [Writing.distinguished_iff]
  rcases hf with hfield | ⟨rfl, hshort⟩
  · refine ⟨_, hfield, rfl, fun hsame => ?_⟩
    have hlt : (Writing.pick pid late raised).text (.field f) <
        (Writing.pick pid late' raised').text (.field f) := pick_field_lt hlate hlate'
    rw [hsame] at hlt
    exact List.lt_irrefl _ hlt
  · refine ⟨_, hshort, rfl, fun hsame => ?_⟩
    have hlt : (Writing.pick pid late' raised').text .shortYear <
        (Writing.pick pid late raised).text .shortYear := pick_shortYear_lt hlate hlate'
    rw [hsame] at hlt
    exact List.lt_irrefl _ hlt

theorem pick_text_ne_nil (i : Item) : (Writing.pick pid late raised).text i ≠ [] := by
  have hitoa := itoa_ne_nil pid
  cases i with
  | lit b => exact List.cons_ne_nil _ _
  | pid => exact hitoa
  | field f => exact text_field_ne_nil _ f
  | shortYear =>
    intro h
    have hlen := (Writing.pick pid late raised).digits_shortYear.1
    rw [h] at hlen
    cases hlen
  | free u =>
    have hlow : lowText pid u ≠ [] := by
      cases u <;> first | exact hitoa | exact List.cons_ne_nil _ _
    have hhigh : highText pid u ≠ [] := by
      cases u <;> exact List.cons_ne_nil _ _
    simp only [Writing.text, Writing.pick]
    split
    · exact hhigh
    · exact hlow

theorem base_pick {i : Item} (hi : i ∈ items t) (hne : i ≠ .lit slash) :
    base ((Writing.pick pid late raised).path t) =
      (baseItems (items t)).flatMap (Writing.pick pid late raised).text := by
  refine base_path _ fun hnil => ?_
  obtain ⟨j, rest, hj⟩ := List.exists_cons_of_ne_nil (baseItems_ne_nil hi hne)
  rw [hj, List.flatMap_cons, List.append_eq_nil_iff] at hnil
  exact pick_text_ne_nil j hnil.1

/-- An earlier file that is written greater at the first difference would be chosen. -/
theorem ChoosesLatest.not_gt (h : ChoosesLatest matching oneForm t pid)
    (late late' : Field → Bool) (raised raised' : Token → Bool) {f : Field}
    (hlate : late f = false) (hlate' : late' f = true)
    (hsame : ∀ g, g.rank < f.rank → late g = late' g)
    (hdist : Writing.Distinguished t (.pick pid late raised) (.pick pid late' raised'))
    (hp : oneForm = true → raised .p = raised' .p) {front back : List Item} {i : Item}
    (hl : baseItems (items t) = front ++ i :: back)
    (hfront : ∀ j ∈ front, (Writing.pick pid late raised).text j =
      (Writing.pick pid late' raised').text j)
    (hi : ∀ x y, (Writing.pick pid late' raised').text i ++ x <
      (Writing.pick pid late raised).text i ++ y) : False := by
  have hmem : i ∈ baseItems (items t) := by simp [hl]
  have hslash : i ≠ .lit slash := by
    obtain ⟨_, _, -, -, -, hno⟩ := baseItems_split (items t)
    exact fun heq => hno (heq ▸ hmem)
  have hgt : base ((Writing.pick pid late' raised').path t) <
      base ((Writing.pick pid late raised).path t) := by
    rw [base_pick (mem_of_mem_baseItems hmem) hslash, base_pick (mem_of_mem_baseItems hmem) hslash,
      hl]
    exact flatMap_lt (fun j hj => (hfront j hj).symm) hi back
  have hne : (Writing.pick pid late raised).path t ≠ (Writing.pick pid late' raised').path t :=
    fun heq => List.lt_irrefl _ (heq ▸ hgt)
  have hforms : oneForm = true → (Writing.pick pid late raised).free .p =
      (Writing.pick pid late' raised').free .p := by
    intro hform
    simp only [Writing.pick, hp hform]
  have hlt := h.base_lt (pick_before hlate hlate' hsame) hdist hforms hne
  exact List.lt_asymm hlt hgt

theorem ChoosesLatest.century (h : ChoosesLatest matching oneForm t pid) :
    Leads (.field .year) .shortYear (baseItems (items t)) := by
  by_contra hno
  obtain ⟨front, back, hl, hyear, hshort⟩ := exists_of_not_leads hno
  have hmem : .shortYear ∈ baseItems (items t) := by simp [hl]
  refine h.not_gt (fun _ => false) (fun g => g = .year) (fun _ => false) (fun _ => false)
    (f := .year) rfl rfl ?_ ?_ (fun _ => rfl) hl ?_ ?_
  · intro g hg
    exact absurd hg (Nat.not_lt_zero _)
  · exact pick_distinguished (Or.inr ⟨rfl, mem_of_mem_baseItems hmem⟩) rfl rfl
  · refine pick_text_eq (fun g hg => ?_) (fun hin => absurd hin hshort) (fun _ _ => rfl)
    have hne : g ≠ .year := fun heq => hyear (heq ▸ hg)
    simp [hne]
  · refine append_lt_append ?_ (pick_shortYear_lt rfl rfl)
    exact length_text rfl

theorem ChoosesLatest.significant (h : ChoosesLatest matching oneForm t pid) {f g : Field}
    (hrank : g.rank < f.rank) : Leads (.field g) (.field f) (baseItems (items t)) := by
  by_contra hno
  obtain ⟨front, back, hl, hg, hf⟩ := exists_of_not_leads hno
  have hmem : .field f ∈ baseItems (items t) := by simp [hl]
  have hgf : g ≠ f := Field.ne_of_rank_lt hrank
  have hfront : ∀ e, .field e ∈ front → e ≠ f ∧ e ≠ g :=
    fun e he => ⟨fun heq => hf (heq ▸ he), fun heq => hg (heq ▸ he)⟩
  refine h.not_gt (fun e => e = f) (fun e => e = g) (fun _ => false) (fun _ => false)
    (f := g) (by simp [hgf]) (by simp) ?_ ?_ (fun _ => rfl) hl ?_ ?_
  · intro e he
    have hef : e ≠ f := Field.ne_of_rank_lt (Nat.lt_trans he hrank)
    simp [hef, Field.ne_of_rank_lt he]
  · refine (pick_distinguished (f := f) (Or.inl (mem_of_mem_baseItems hmem)) ?_ ?_).symm
    · simp [hgf.symm]
    · simp
  · refine pick_text_eq (fun e he => ?_) (fun hin => ?_) (fun _ _ => rfl)
    · simp [(hfront e he).1, (hfront e he).2]
    · have hcentury := h.century
      rw [hl] at hcentury
      have hyear : .field .year ∈ front := by
        by_contra hnone
        exact hcentury.not_mem hnone hin
      simp [(hfront _ hyear).1, (hfront _ hyear).2]
  · refine append_lt_append (length_text rfl) (pick_field_lt ?_ ?_)
    · simp [hgf.symm]
    · simp

theorem ChoosesLatest.settled (h : ChoosesLatest matching oneForm t pid) {f : Field} {u : Token}
    (hf : Shown (items t) f) (hu : Varies oneForm u) :
    Leads (.field f) (.free u) (baseItems (items t)) := by
  by_contra hno
  obtain ⟨front, back, hl, hfield, hfree⟩ := exists_of_not_leads hno
  refine h.not_gt (fun _ => false) (fun e => e = f) (fun v => v = u) (fun _ => false)
    (f := f) rfl (by simp) ?_ (pick_distinguished hf rfl (by simp)) ?_ hl ?_
    (pick_free_lt (by simp) rfl)
  · intro e he
    simp [Field.ne_of_rank_lt he]
  · intro hform
    rcases hu with hu | hform'
    · simp [hu.symm]
    · rw [hform] at hform'
      cases hform'
  · refine pick_text_eq (fun e he => ?_) (fun hin => ?_) (fun v hv => ?_)
    · have hef : e ≠ f := fun heq => hfield (heq ▸ he)
      simp [hef]
    · have hcentury := h.century
      rw [hl] at hcentury
      have hyear : f ≠ .year := by
        rintro rfl
        exact hcentury.not_mem hfield hin
      simp [hyear.symm]
    · have hvu : v ≠ u := fun heq => hfree (heq ▸ hv)
      simp [hvu]

theorem ChoosesLatest.named (h : ChoosesLatest matching oneForm t pid) {f : Field}
    (hf : Shown (items t) f) : .field f ∈ baseItems (items t) := by
  by_contra hno
  have hsame : ∀ i ∈ baseItems (items t),
      (Writing.pick pid (fun _ => false) fun _ => false).text i =
        (Writing.pick pid (fun e => e = f) fun _ => false).text i := by
    refine pick_text_eq (fun e he => ?_) (fun hin => ?_) (fun _ _ => rfl)
    · have hef : e ≠ f := fun heq => hno (heq ▸ he)
      simp [hef]
    · have hyear : f ≠ .year := by
        rintro rfl
        exact hno (h.century.mem hin)
      simp [hyear.symm]
  have hdist : Writing.Distinguished t (.pick pid (fun _ => false) fun _ => false)
      (.pick pid (fun e => e = f) fun _ => false) := pick_distinguished hf rfl (by simp)
  obtain ⟨i, hi, htimed, hdiff⟩ := Writing.distinguished_iff.mp hdist
  have hslash : i ≠ .lit slash := by
    rintro rfl
    cases htimed
  have hne : (Writing.pick pid (fun _ => false) fun _ => false).path t ≠
      (Writing.pick pid (fun e => e = f) fun _ => false).path t := by
    intro hpath
    refine hdiff (eq_of_flatMap_eq (fun j _ => ?_) hpath i hi)
    cases j with
    | field e => exact length_text rfl
    | shortYear => exact length_text rfl
    | _ => rfl
  have hbefore : (Writing.pick pid (fun _ => false) fun _ => false).time.Before
      (Writing.pick pid (fun e => e = f) fun _ => false).time := by
    refine pick_before (f := f) rfl (by simp) fun e he => ?_
    simp [Field.ne_of_rank_lt he]
  have hlt := h.base_lt hbefore hdist (fun _ => rfl) hne
  rw [base_pick hi hslash, base_pick hi hslash, List.flatMap_congr hsame] at hlt
  exact List.lt_irrefl _ hlt

theorem ChoosesLatest.ordered (h : ChoosesLatest matching oneForm t pid) :
    Ordered oneForm (items t) where
  significant _ _ := h.significant
  century := h.century
  settled _ _ := h.settled
  named _ := h.named

end

/-! ## Patterns without syntax of their own -/

/-- No classes, alternatives and escapes, and no star for whole directories. -/
def PlainPattern (pattern : GoString) : Prop :=
  (∀ b ∈ str "[]\x7b\x7d\\", b ∉ pattern) ∧ ¬ str "**" <:+: pattern

instance : DecidablePred PlainPattern := fun _ => inferInstanceAs (Decidable (_ ∧ _))

/-- The start of a day. -/
def midnight (year month day : ℕ) : Field → ℕ
  | .year => year
  | .month => month
  | .day => day
  | _ => 0

/-- The shortest path of a template is one that is written at the start of 2024. -/
def Writing.shortest (pid : Int) : Writing pid where
  time := ⟨midnight 2024 1 1, by intro f; cases f <;> decide⟩
  free u := Capture.shortest pid (.tok u)
  written u _ := expansion_shortest pid (.tok u)

theorem path_shortest (t : Template) (pid : Int) :
    (Writing.shortest pid).path t = t.pieces.flatMap (Capture.shortest pid) := by
  have hitem (i : Item) : [i].flatMap (Writing.shortest pid).text = (Writing.shortest pid).text i :=
    List.flatMap_singleton ..
  have hyear : padded 4 2024 = str "2024" := by decide
  have hshort : padded 2 2024 = str "24" := by decide
  have hone : padded 2 1 = str "01" := by decide
  have hzero : padded 2 0 = str "00" := by decide
  have hstamp : padded 4 2024 ++ ([45] ++ (padded 2 1 ++ ([45] ++ (padded 2 1 ++ ([95] ++
      (padded 2 0 ++ ([45] ++ (padded 2 0 ++ ([45] ++ (padded 2 0 ++ [])))))))))) =
        str "2024-01-01_00-00-00" := by decide
  have hpiece (pc : Piece) :
      (itemsOf pc).flatMap (Writing.shortest pid).text = Capture.shortest pid pc := by
    cases pc with
    | lit b => rfl
    | tok u =>
      cases u with
      | t =>
        simp only [itemsOf, List.flatMap_cons, List.flatMap_nil]
        exact hstamp
      | Y => exact (hitem _).trans hyear
      | y => exact (hitem _).trans hshort
      | m => exact (hitem _).trans hone
      | d => exact (hitem _).trans hone
      | H => exact (hitem _).trans hzero
      | M => exact (hitem _).trans hzero
      | S => exact (hitem _).trans hzero
      | _ => exact hitem _
  rw [Writing.path, items, List.flatMap_assoc]
  exact List.flatMap_congr fun pc _ => hpiece pc

/-- A plain pattern matches everything written for its template when it names the process once
in either way at most. -/
theorem matched_iff_of_plain {matching : GoString → GoString → Bool}
    (hmatching : ∀ pattern path, PlainPattern pattern →
      (matching pattern path = true ↔ Matches pattern path))
    {t : Template} {pid : Int} (hplain : PlainPattern (getGlobPatternFromGCPath t.text pid)) :
    Matched matching t pid ↔
      t.pieces.count (.tok .pid) ≤ 1 ∧ t.pieces.count (.tok .p) ≤ 1 := by
  constructor
  · intro h
    have hshortest := (hmatching _ _ hplain).mp (h (.shortest pid))
    rw [path_shortest] at hshortest
    exact count_le_one_of_matches hshortest
  · intro h w
    exact (hmatching _ _ hplain).mpr ((covered_iff t pid).mpr h _ (w.expands_path t))

/-- The latest file is chosen exactly for the templates with their tokens in order, if the
pattern matches the files. -/
theorem choosesLatest_iff (matching : GoString → GoString → Bool)
    (hmatching : ∀ pattern path, PlainPattern pattern →
      (matching pattern path = true ↔ Matches pattern path))
    (oneForm : Bool) (t : Template) (pid : Int) :
    (ChoosesLatest matching oneForm t pid ↔
      Matched matching t pid ∧ Ordered oneForm (items t)) ∧
    (PlainPattern (getGlobPatternFromGCPath t.text pid) →
      (Matched matching t pid ↔
        t.pieces.count (.tok .pid) ≤ 1 ∧ t.pieces.count (.tok .p) ≤ 1)) := by
  refine ⟨⟨fun h => ⟨h.matched, h.ordered⟩, fun h => h.2.choosesLatest h.1⟩, ?_⟩
  exact matched_iff_of_plain hmatching

/-- `/var/gc-%t.log`. -/
def timeLog : Template where
  pieces := lits (str "/var/gc-") ++ .tok .t :: lits (str ".log")
  literal := by
    intro b hb
    have hmem : b ∈ str "/var/gc-" ∨ b ∈ str ".log" := by simpa using hb
    have hbytes : ∀ b ∈ str "/var/gc-" ++ str ".log", b ≠ percent := by decide
    exact hbytes b (List.mem_append.mpr hmem)
  noPid := by decide
  noTick := by decide

theorem ordered_timeLog : Ordered false (items timeLog) where
  significant f g := by
    cases f <;> cases g <;> decide
  century := by decide
  settled f u _ _ := leads_of_not_mem (by cases u <;> decide)
  named f _ := by
    cases f <;> decide

theorem choosesLatest_timeLog :
    PlainPattern (getGlobPatternFromGCPath timeLog.text 12) ∧
      ChoosesLatest globMatch false timeLog 12 := by
  have hplain : PlainPattern (getGlobPatternFromGCPath timeLog.text 12) := by decide
  have hiff := choosesLatest_iff globMatch (fun _ _ _ => Iff.rfl) false timeLog 12
  exact ⟨hplain, hiff.1.mpr ⟨(hiff.2 hplain).mpr (by decide), ordered_timeLog⟩⟩

/-- `gc-%d-%m-%Y.log`. -/
def dayFirst : Template where
  pieces := lits (str "gc-") ++ [.tok .d, .lit 45, .tok .m, .lit 45, .tok .Y] ++ lits (str ".log")
  literal := by
    intro b hb
    have hmem : b ∈ str "gc-" ∨ b = 45 ∨ b ∈ str ".log" := by simpa using hb
    have hbytes : ∀ b ∈ str "gc-" ++ str ".log", b ≠ percent := by decide
    rcases hmem with h | rfl | h
    · exact hbytes b (List.mem_append_left _ h)
    · decide
    · exact hbytes b (List.mem_append_right _ h)
  noPid := by decide
  noTick := by decide

/-- The second of January and the first of February. -/
def january : Writing 12 where
  time := ⟨midnight 2024 1 2, by intro f; cases f <;> decide⟩
  free := lowText 12
  written := expansion_lowText 12

def february : Writing 12 where
  time := ⟨midnight 2024 2 1, by intro f; cases f <;> decide⟩
  free := lowText 12
  written := expansion_lowText 12

/-- `gc-02-01-2024.log` is chosen although `gc-01-02-2024.log` is there. -/
theorem not_choosesLatest_dayFirst : ¬ ChoosesLatest globMatch false dayFirst 12 := by
  intro h
  have hbefore : january.time.Before february.time :=
    ⟨.month, by decide, by intro g; cases g <;> decide⟩
  have hdist : Writing.Distinguished dayFirst january february :=
    ⟨.d, by decide, by decide, by decide⟩
  have hlt := h.base_lt hbefore hdist (fun _ => rfl) (by decide)
  revert hlt
  decide

end YcAgent.Capture.GCLatest
