import Mathlib.Data.List.TakeWhile
import YcAgent.Base.Split
import YcAgent.Base.Strings

/-!
# Lexical paths

A path stands for the list of its components. Reading one drops empty components and
single dots and lets `..` take back the component in front of it, as `filepath.Clean`
does; the paths that reading leaves as they are can be written and read again.
-/
namespace Go

def slash : Byte := 47
def dot : Byte := 46

/-- One component behind the ones already read. -/
def pushComponent (rooted : Bool) (comps : List GoString) (comp : GoString) : List GoString :=
  if comp = [] ∨ comp = [dot] then comps
  else if comp = [dot, dot] then
    if comps = [] then if rooted then [] else [comp]
    else if comps.getLast? = some [dot, dot] then comps ++ [comp]
    else comps.dropLast
  else comps ++ [comp]

def pushAll (rooted : Bool) (comps : List GoString) (cs : List GoString) : List GoString :=
  cs.foldl (pushComponent rooted) comps

/-- Every part of the list from its front is read as it stands. -/
structure Normal (rooted : Bool) (comps : List GoString) : Prop where
  fixed : ∀ front, front <+: comps → pushAll rooted [] front = front
  plain : ∀ c ∈ comps, slash ∉ c

theorem Normal.nil (rooted : Bool) : Normal rooted [] where
  fixed := by
    intro front hfront
    rw [List.prefix_nil.mp hfront]
    rfl
  plain := by simp

theorem Normal.dropLast {rooted : Bool} {comps : List GoString} (h : Normal rooted comps) :
    Normal rooted comps.dropLast where
  fixed front hfront := h.fixed front (hfront.trans (List.dropLast_prefix comps))
  plain c hc := h.plain c (List.mem_of_mem_dropLast hc)

theorem Normal.snoc {rooted : Bool} {comps : List GoString} (h : Normal rooted comps)
    {c : GoString} (hc : slash ∉ c) (hpush : pushComponent rooted comps c = comps ++ [c]) :
    Normal rooted (comps ++ [c]) where
  fixed := by
    intro front hfront
    rcases List.prefix_concat_iff.mp hfront with rfl | hfront
    · rw [pushAll, List.foldl_append]
      show pushComponent rooted (pushAll rooted [] comps) c = comps ++ [c]
      rw [h.fixed comps (List.prefix_refl comps), hpush]
    · exact h.fixed front hfront
  plain := by
    intro d hd
    rcases List.mem_append.mp hd with hd | hd
    · exact h.plain d hd
    · rw [List.mem_singleton.mp hd]
      exact hc

theorem Normal.push {rooted : Bool} {comps : List GoString} (h : Normal rooted comps)
    {c : GoString} (hc : slash ∉ c) : Normal rooted (pushComponent rooted comps c) := by
  by_cases hskip : c = [] ∨ c = [dot]
  · rw [pushComponent, if_pos hskip]
    exact h
  · by_cases hup : c = [dot, dot]
    · by_cases hnil : comps = []
      · subst hnil
        cases rooted with
        | true =>
          have hpush : pushComponent true [] c = [] := by simp [pushComponent, hup, dot]
          rw [hpush]
          exact h
        | false =>
          have hpush : pushComponent false [] c = [] ++ [c] := by simp [pushComponent, hup, dot]
          rw [hpush]
          exact h.snoc hc hpush
      · by_cases hlast : comps.getLast? = some [dot, dot]
        · have hpush : pushComponent rooted comps c = comps ++ [c] := by
            rw [pushComponent, if_neg hskip, if_pos hup, if_neg hnil, if_pos hlast]
          rw [hpush]
          exact h.snoc hc hpush
        · rw [pushComponent, if_neg hskip, if_pos hup, if_neg hnil, if_neg hlast]
          exact h.dropLast
    · have hpush : pushComponent rooted comps c = comps ++ [c] := by
        rw [pushComponent, if_neg hskip, if_neg hup]
      rw [hpush]
      exact h.snoc hc hpush

theorem Normal.pushAll {rooted : Bool} {comps cs : List GoString} (h : Normal rooted comps)
    (hcs : ∀ c ∈ cs, slash ∉ c) : Normal rooted (pushAll rooted comps cs) := by
  induction cs generalizing comps with
  | nil => exact h
  | cons c cs ih =>
    obtain ⟨hc, hrest⟩ := List.forall_mem_cons.mp hcs
    exact ih (h.push hc) hrest

/-- A path without anything to clean. -/
structure FilePath where
  rooted : Bool
  comps : List GoString
  normal : Normal rooted comps

theorem FilePath.eq_of {p q : FilePath} (hrooted : p.rooted = q.rooted)
    (hcomps : p.comps = q.comps) : p = q := by
  cases p
  cases q
  simp only at hrooted hcomps
  subst hrooted hcomps
  rfl

instance : DecidableEq FilePath := fun p q =>
  decidable_of_iff (p.rooted = q.rooted ∧ p.comps = q.comps)
    ⟨fun h => FilePath.eq_of h.1 h.2, fun h => h ▸ ⟨rfl, rfl⟩⟩

theorem slash_not_mem_split {s c : GoString} (hc : c ∈ split s slash) : slash ∉ c :=
  Text.not_mem_of_mem_splitOn hc

namespace FilePath

def parse (s : GoString) : FilePath where
  rooted := s.head? = some slash
  comps := pushAll (s.head? = some slash) [] (split s slash)
  normal := (Normal.nil _).pushAll fun _ hc => slash_not_mem_split hc

def render (p : FilePath) : GoString :=
  if p.rooted then slash :: join p.comps [slash]
  else if p.comps = [] then [dot]
  else join p.comps [slash]

/-- `filepath.Clean`. -/
def clean (s : GoString) : GoString := (parse s).render

/-- The part of a path up to its last slash, and the name behind it. -/
def upToSlash (s : GoString) : GoString := (s.reverse.dropWhile (· != slash)).reverse
def afterSlash (s : GoString) : GoString := (s.reverse.takeWhile (· != slash)).reverse

/-- `filepath.Dir`. -/
def dir (s : GoString) : GoString := clean (upToSlash s)

/-- `filepath.Join`. -/
def joinPath (elems : List GoString) : GoString :=
  match elems.dropWhile (· == []) with
  | [] => []
  | rest => clean (join rest [slash])

/-- `filepath.Ext`: the part of the name from its last dot on. -/
def ext (s : GoString) : GoString :=
  let name := afterSlash s
  if dot ∈ name then dot :: (name.reverse.takeWhile (· != dot)).reverse else []

/-- `strings.TrimSuffix`. -/
def trimSuffix (s suf : GoString) : GoString :=
  if hasSuffix s suf then s.take (s.length - suf.length) else s

/-- `strings.TrimPrefix`. -/
def trimPrefix (s pre : GoString) : GoString :=
  if hasPrefix s pre then s.drop pre.length else s

theorem upToSlash_append_afterSlash (s : GoString) : upToSlash s ++ afterSlash s = s := by
  rw [upToSlash, afterSlash, ← List.reverse_append, List.takeWhile_append_dropWhile,
    List.reverse_reverse]

theorem slash_not_mem_afterSlash (s : GoString) : slash ∉ afterSlash s := by
  intro h
  have := List.mem_takeWhile_imp (List.mem_reverse.mp h)
  simp at this

theorem trimSuffix_append (s suf : GoString) : trimSuffix (s ++ suf) suf = s := by
  have htest : hasSuffix (s ++ suf) suf = true :=
    List.isSuffixOf_iff_suffix.mpr (List.suffix_append s suf)
  rw [trimSuffix, if_pos htest, List.length_append, Nat.add_sub_cancel, List.take_left]

/-- Without its extension, and the extension again. -/
theorem trimSuffix_append_ext (s : GoString) : trimSuffix s (ext s) ++ ext s = s := by
  have hsuffix : ext s <:+ s := by
    have hname : afterSlash s <:+ s := ⟨upToSlash s, upToSlash_append_afterSlash s⟩
    refine List.IsSuffix.trans ?_ hname
    show (if dot ∈ afterSlash s then _ else _) <:+ afterSlash s
    split
    · rename_i hdot
      have hsplit := List.takeWhile_append_dropWhile (p := (· != dot)) (l := (afterSlash s).reverse)
      cases hrest : (afterSlash s).reverse.dropWhile (· != dot) with
      | nil =>
        rw [List.dropWhile_eq_nil_iff] at hrest
        have hne := hrest dot (List.mem_reverse.mpr hdot)
        simp at hne
      | cons b rest =>
        have hb := List.head?_dropWhile_not (· != dot) (afterSlash s).reverse
        rw [hrest] at hb
        have hbdot : b = dot := by simpa using hb
        rw [hrest, hbdot] at hsplit
        refine ⟨rest.reverse, ?_⟩
        have hrev := congrArg List.reverse hsplit
        rw [List.reverse_append, List.reverse_cons, List.reverse_reverse, List.append_assoc,
          List.singleton_append] at hrev
        exact hrev
    · exact List.nil_suffix
  obtain ⟨front, hfront⟩ := hsuffix
  have htrim := trimSuffix_append front (ext s)
  rw [hfront] at htrim
  rw [htrim, hfront]

theorem ext_cases (s : GoString) : ext s = [] ∨ ∃ e, ext s = dot :: e ∧ dot ∉ e := by
  have hext : ext s = if dot ∈ afterSlash s then
      dot :: ((afterSlash s).reverse.takeWhile (· != dot)).reverse else [] := rfl
  rw [hext]
  split
  · refine Or.inr ⟨_, rfl, ?_⟩
    intro h
    have := List.mem_takeWhile_imp (List.mem_reverse.mp h)
    simp at this
  · exact Or.inl rfl

theorem upToSlash_cases (s : GoString) :
    upToSlash s = [] ∨ ∃ front, upToSlash s = front ++ [slash] := by
  unfold upToSlash
  cases h : s.reverse.dropWhile (· != slash) with
  | nil => exact Or.inl rfl
  | cons b rest =>
    have hb := List.head?_dropWhile_not (· != slash) s.reverse
    rw [h] at hb
    have hslash : b = slash := by simpa using hb
    refine Or.inr ⟨rest.reverse, ?_⟩
    rw [List.reverse_cons, hslash]

/-- A path that does not start at the root does not begin with a slash. -/
theorem head?_join_ne {p : FilePath} (hrooted : p.rooted = false) :
    (join p.comps [slash]).head? ≠ some slash := by
  obtain ⟨rooted, comps, normal⟩ := p
  simp only at hrooted ⊢
  subst hrooted
  cases comps with
  | nil =>
    intro h
    cases h
  | cons c cs =>
    have hfirst := normal.fixed [c] ⟨cs, rfl⟩
    have hslash : slash ∉ c := normal.plain c List.mem_cons_self
    cases c with
    | nil => cases hfirst
    | cons b t =>
      have hb : b ≠ slash := fun h => hslash (h ▸ List.mem_cons_self)
      have hhead : (join ((b :: t) :: cs) [slash]).head? = some b := by
        cases cs with
        | nil => rfl
        | cons d ds => rfl
      rw [hhead]
      exact fun h => hb (Option.some.inj h)

/-- What is written is read back. -/
theorem parse_render (p : FilePath) : parse p.render = p := by
  have hfixed := p.normal.fixed p.comps (List.prefix_refl _)
  have hplain := p.normal.plain
  have hjoin : p.comps ≠ [] → split (join p.comps [slash]) slash = p.comps := by
    intro hne
    exact List.splitOn_intercalate slash hplain hne
  unfold render
  cases hrooted : p.rooted with
  | true =>
    rw [hrooted] at hfixed
    rw [if_pos rfl]
    refine FilePath.eq_of (by rw [hrooted]; simp [parse]) ?_
    show pushAll (decide _) [] (split (slash :: join p.comps [slash]) slash) = p.comps
    have hsplit : split (slash :: join p.comps [slash]) slash =
        [] :: split (join p.comps [slash]) slash :=
      List.splitOn_append_cons_self_of_not_mem List.not_mem_nil _
    rw [hsplit]
    by_cases hne : p.comps = []
    · rw [hne]
      rfl
    · rw [hjoin hne]
      simpa [pushAll, pushComponent] using hfixed
  | false =>
    rw [hrooted] at hfixed
    rw [if_neg Bool.false_ne_true]
    by_cases hne : p.comps = []
    · rw [if_pos hne]
      refine FilePath.eq_of (by rw [hrooted]; rfl) ?_
      rw [hne]
      rfl
    · rw [if_neg hne]
      have hhead : decide ((join p.comps [slash]).head? = some slash) = false :=
        decide_eq_false (head?_join_ne hrooted)
      refine FilePath.eq_of (by rw [hrooted]; exact hhead) ?_
      show pushAll (decide _) [] (split (join p.comps [slash]) slash) = p.comps
      rw [hhead, hjoin hne]
      exact hfixed

theorem render_ne_nil (p : FilePath) : p.render ≠ [] := by
  unfold render
  split
  · exact List.cons_ne_nil _ _
  · split
    · exact List.cons_ne_nil _ _
    · rename_i hne
      intro hnil
      have hsplit : split (join p.comps [slash]) slash = p.comps :=
        List.splitOn_intercalate slash p.normal.plain hne
      rw [hnil] at hsplit
      have hone : p.comps = [[]] := hsplit.symm
      have hfixed := p.normal.fixed p.comps (List.prefix_refl _)
      rw [hone] at hfixed
      cases hfixed

/-- The path of a name in a directory. -/
def child (p : FilePath) (name : GoString) (hname : slash ∉ name) : FilePath where
  rooted := p.rooted
  comps := pushComponent p.rooted p.comps name
  normal := p.normal.push hname

theorem parse_append_slash {front name : GoString} (hname : slash ∉ name) (hfront : front ≠ []) :
    parse (front ++ slash :: name) = (parse front).child name hname := by
  have hhead : (front ++ slash :: name).head? = front.head? := by
    cases front with
    | nil => exact absurd rfl hfront
    | cons b t => rfl
  have hsplit : split (front ++ slash :: name) slash = split front slash ++ [name] := by
    rw [split, List.splitOn_append_cons_self, List.splitOn_eq_singleton hname]
    rfl
  refine FilePath.eq_of ?_ ?_
  · show decide _ = decide _
    rw [hhead]
  · show pushAll (decide _) [] _ = pushComponent (decide _) (pushAll (decide _) [] _) name
    rw [hhead, hsplit, pushAll, List.foldl_append]
    rfl

theorem not_rooted {name : GoString} (hname : slash ∉ name) :
    decide (name.head? = some slash) = false := by
  refine decide_eq_false fun h => hname ?_
  exact List.mem_of_head? h

/-- A name behind the last slash of a path is a child of its directory. -/
theorem parse_upToSlash_append (s : GoString) {name : GoString} (hname : slash ∉ name) :
    parse (upToSlash s ++ name) = (parse (upToSlash s)).child name hname := by
  rcases upToSlash_cases s with hnil | ⟨front, hfront⟩
  · rw [hnil, List.nil_append]
    have hhead := not_rooted hname
    refine FilePath.eq_of hhead ?_
    show pushAll (decide _) [] (split name slash) = pushComponent false [] name
    rw [hhead, split, List.splitOn_eq_singleton hname]
    rfl
  · have hfirst : (upToSlash s ++ name).head? = (upToSlash s).head? := by
      rw [hfront]
      cases front with
      | nil => rfl
      | cons b t => rfl
    have hall : split (upToSlash s ++ name) slash = split front slash ++ [name] := by
      rw [hfront, List.append_assoc, split, List.singleton_append, List.splitOn_append_cons_self,
        List.splitOn_eq_singleton hname]
      rfl
    have hfronts : split (upToSlash s) slash = split front slash ++ [[]] := by
      rw [hfront, split, List.splitOn_append_cons_self]
      rfl
    have hcomps : (parse (upToSlash s)).comps =
        pushAll (decide ((upToSlash s).head? = some slash)) [] (split front slash) := by
      show pushAll (decide _) [] (split (upToSlash s) slash) = _
      rw [hfronts, pushAll, List.foldl_append]
      rfl
    refine FilePath.eq_of ?_ ?_
    · show decide _ = decide _
      rw [hfirst]
    · show pushAll (decide _) [] _ = pushComponent (decide _) (parse (upToSlash s)).comps name
      rw [hfirst, hall, hcomps, pushAll, List.foldl_append]
      rfl

/-- So is a name joined to the directory of the path. -/
theorem parse_joinPath_dir (s : GoString) {name : GoString} (hname : slash ∉ name) :
    parse (joinPath [dir s, name]) = (parse (upToSlash s)).child name hname := by
  have hdir : dir s ≠ [] := render_ne_nil _
  have hjoin : joinPath [dir s, name] = clean (dir s ++ slash :: name) := by
    rw [joinPath, List.dropWhile_cons_of_neg (by simpa using hdir)]
    show clean (join [dir s, name] [slash]) = _
    simp [join]
  have hparse : parse (dir s) = parse (upToSlash s) := parse_render _
  rw [hjoin, clean, parse_render, parse_append_slash hname hdir, hparse]

/-- What stands in front of a name in the directory. -/
def inFront (p : FilePath) : GoString :=
  if p.comps = [] then if p.rooted then [slash] else [] else p.render ++ [slash]

theorem parse_inFront_append (p : FilePath) {name : GoString} (hname : slash ∉ name) :
    parse (p.inFront ++ name) = p.child name hname := by
  obtain ⟨rooted, comps, normal⟩ := p
  by_cases hcomps : comps = []
  · subst hcomps
    cases rooted with
    | true =>
      exact FilePath.eq_of rfl (by simp [inFront, parse, child, pushAll, split,
        List.splitOn_cons_eq_if_modifyHead, List.splitOn_eq_singleton hname, pushComponent])
    | false =>
      have hhead := not_rooted hname
      refine FilePath.eq_of hhead ?_
      show pushAll (decide (name.head? = some slash)) [] (split name slash) = _
      rw [hhead, split, List.splitOn_eq_singleton hname]
      rfl
  · rw [inFront, if_neg hcomps, List.append_assoc, List.singleton_append,
      parse_append_slash hname (render_ne_nil _)]
    exact FilePath.eq_of (by rw [child, child, parse_render]) (by rw [child, child, parse_render])

/-- A name that is neither empty nor a dot or two. -/
def Plain (name : GoString) : Prop := name ≠ [] ∧ name ≠ [dot] ∧ name ≠ [dot, dot]

theorem Plain.of_mem {name : GoString} {b : Byte} (hb : b ∈ name) (hdot : b ≠ dot) :
    Plain name := by
  refine ⟨?_, ?_, ?_⟩
  · intro h
    rw [h] at hb
    cases hb
  · intro h
    rw [h, List.mem_singleton] at hb
    exact hdot hb
  · intro h
    rw [h] at hb
    simp [hdot] at hb

theorem comps_child (p : FilePath) {name : GoString} (hname : slash ∉ name) (hplain : Plain name) :
    (p.child name hname).comps = p.comps ++ [name] := by
  obtain ⟨hnil, hdot, hdots⟩ := hplain
  show pushComponent p.rooted p.comps name = p.comps ++ [name]
  rw [pushComponent, if_neg (not_or.mpr ⟨hnil, hdot⟩), if_neg hdots]

theorem join_snoc {comps : List GoString} (hcomps : comps ≠ []) (name : GoString) :
    join (comps ++ [name]) [slash] = join comps [slash] ++ slash :: name := by
  induction comps with
  | nil => exact absurd rfl hcomps
  | cons c comps ih =>
    by_cases hnil : comps = []
    · subst hnil
      simp [join]
    · have hne : comps ++ [name] ≠ [] := by simp
      have hrest : [slash].intercalate (comps ++ [name]) =
          [slash].intercalate comps ++ slash :: name := ih hnil
      rw [join, join, List.cons_append, List.intercalate_cons_of_ne_nil hne, hrest,
        List.intercalate_cons_of_ne_nil hnil]
      simp

theorem mem_join {parts : List GoString} {b : Byte} :
    b ∈ join parts [slash] → b = slash ∨ ∃ part ∈ parts, b ∈ part := by
  induction parts with
  | nil =>
    intro h
    cases h
  | cons part parts ih =>
    intro h
    by_cases hnil : parts = []
    · subst hnil
      exact Or.inr ⟨part, List.mem_cons_self, by simpa [join] using h⟩
    · rw [join, List.intercalate_cons_of_ne_nil hnil, List.append_assoc, List.mem_append,
        List.mem_append, List.mem_singleton] at h
      rcases h with h | h | h
      · exact Or.inr ⟨part, List.mem_cons_self, h⟩
      · exact Or.inl h
      · refine (ih h).imp_right ?_
        intro ⟨q, hq, hb⟩
        exact ⟨q, List.mem_cons_of_mem part hq, hb⟩

theorem mem_join_of_mem {parts : List GoString} {part : GoString} (hpart : part ∈ parts) {b : Byte}
    (hb : b ∈ part) : b ∈ join parts [slash] := by
  induction parts with
  | nil => cases hpart
  | cons q parts ih =>
    by_cases hnil : parts = []
    · subst hnil
      rw [List.mem_singleton] at hpart
      simpa [join, ← hpart] using hb
    · rw [join, List.intercalate_cons_of_ne_nil hnil, List.append_assoc, List.mem_append]
      rcases List.mem_cons.mp hpart with rfl | hpart
      · exact Or.inl hb
      · exact Or.inr (List.mem_append_right _ (ih hpart))

theorem render_child (p : FilePath) {name : GoString} (hname : slash ∉ name)
    (hplain : Plain name) : (p.child name hname).render = p.inFront ++ name := by
  have hcomps := comps_child p hname hplain
  have hrooted : (p.child name hname).rooted = p.rooted := rfl
  have hsome : p.comps ++ [name] ≠ [] := by simp
  unfold render inFront
  rw [hcomps, hrooted]
  by_cases hnil : p.comps = []
  · rw [hnil]
    cases p.rooted with
    | true => simp [join]
    | false => simp [join]
  · rw [join_snoc hnil, if_neg hnil, if_neg hsome, render, if_neg hnil]
    cases p.rooted with
    | true => simp
    | false => simp

/-- A component is one of the parts between the slashes. -/
theorem mem_pushAll {rooted : Bool} {comps cs : List GoString} {comp : GoString}
    (h : comp ∈ pushAll rooted comps cs) : comp ∈ comps ∨ comp ∈ cs := by
  induction cs generalizing comps with
  | nil => exact Or.inl h
  | cons d cs ih =>
    rcases ih h with hpush | hrest
    · have hmem : comp ∈ comps ∨ comp = d := by
        unfold pushComponent at hpush
        split at hpush
        · exact Or.inl hpush
        · split at hpush
          · split at hpush
            · split at hpush
              · cases hpush
              · exact Or.inr (List.mem_singleton.mp hpush)
            · split at hpush
              · exact (List.mem_append.mp hpush).imp_right List.mem_singleton.mp
              · exact Or.inl (List.mem_of_mem_dropLast hpush)
          · exact (List.mem_append.mp hpush).imp_right List.mem_singleton.mp
      rcases hmem with hmem | rfl
      · exact Or.inl hmem
      · exact Or.inr List.mem_cons_self
    · exact Or.inr (List.mem_cons_of_mem d hrest)

/-- Reading and writing a path brings no bytes into it but slashes and dots. -/
theorem mem_of_mem_render {s : GoString} {b : Byte} (hb : b ∈ (parse s).render) :
    b = slash ∨ b = dot ∨ b ∈ s := by
  have hjoin : join (split s slash) [slash] = s := List.intercalate_splitOn slash
  have hcomps : b ∈ join (parse s).comps [slash] → b = slash ∨ b = dot ∨ b ∈ s := by
    intro h
    refine (mem_join h).imp_right fun hex => ?_
    obtain ⟨part, hpart, hmem⟩ := hex
    have hsplit : part ∈ split s slash := (mem_pushAll hpart).resolve_left List.not_mem_nil
    exact Or.inr (hjoin ▸ mem_join_of_mem hsplit hmem)
  unfold render at hb
  split at hb
  · rcases List.mem_cons.mp hb with h | h
    · exact Or.inl h
    · exact hcomps h
  · split at hb
    · exact Or.inr (Or.inl (List.mem_singleton.mp hb))
    · exact hcomps hb

theorem mem_of_mem_inFront {s : GoString} {b : Byte} (hb : b ∈ (parse s).inFront) :
    b = slash ∨ b = dot ∨ b ∈ s := by
  unfold inFront at hb
  split at hb
  · split at hb
    · exact Or.inl (List.mem_singleton.mp hb)
    · cases hb
  · rcases List.mem_append.mp hb with h | h
    · exact mem_of_mem_render h
    · exact Or.inl (List.mem_singleton.mp h)

/-- A name alone is a path of one component. -/
theorem comps_parse {name : GoString} (hname : slash ∉ name) (hplain : Plain name) :
    (parse name).comps = [name] := by
  have hparse : parse name = (parse []).child name hname := parse_upToSlash_append [] hname
  rw [hparse, comps_child _ hname hplain]
  rfl

theorem inFront_cases (p : FilePath) : p.inFront = [] ∨ ∃ front, p.inFront = front ++ [slash] := by
  unfold inFront
  split
  · split
    · exact Or.inr ⟨[], rfl⟩
    · exact Or.inl rfl
  · exact Or.inr ⟨_, rfl⟩

/-- The name between the last slash in front and the slashes at the end. -/
theorem base_append {front name back : GoString}
    (hfront : front = [] ∨ ∃ d, front = d ++ [slash]) (hname : slash ∉ name) (hne : name ≠ [])
    (hback : ∀ b ∈ back, b = slash) : base (front ++ (name ++ back)) = name := by
  have hall : ∀ b ∈ name.reverse, (b != slash) = true := by
    intro b hb
    rw [bne_iff_ne]
    intro h
    exact hname (h ▸ List.mem_reverse.mp hb)
  have hslashes : ∀ b ∈ back.reverse, (b == slash) = true := by
    intro b hb
    rw [beq_iff_eq]
    exact hback b (List.mem_reverse.mp hb)
  have hdrop : (front ++ (name ++ back)).reverse.dropWhile (· == slash) =
      name.reverse ++ front.reverse := by
    rw [List.reverse_append, List.reverse_append, List.append_assoc,
      List.dropWhile_append_of_pos hslashes]
    cases hrev : name.reverse with
    | nil => exact absurd (List.reverse_eq_nil_iff.mp hrev) hne
    | cons b rest =>
      have hb := hall b (hrev ▸ List.mem_cons_self)
      rw [List.cons_append, List.dropWhile_cons_of_neg]
      simpa using hb
  have htake : (name.reverse ++ front.reverse).takeWhile (· != slash) = name.reverse := by
    rw [List.takeWhile_append_of_pos hall]
    rcases hfront with hnil | ⟨d, hd⟩
    · simp [hnil]
    · simp [hd]
  have hpath : front ++ (name ++ back) ≠ [] := by simp [hne]
  have hrev : name.reverse ≠ [] := by simpa using hne
  have htaken : ((front ++ (name ++ back)).reverse.dropWhile (· == slash)).takeWhile (· != slash) =
      name.reverse := by rw [hdrop, htake]
  unfold slash at htaken
  unfold base
  rw [if_neg hpath]
  simp only [htaken, if_neg hrev, List.reverse_reverse]

theorem base_inFront_append (p : FilePath) {name : GoString} (hname : slash ∉ name)
    (hne : name ≠ []) : base (p.inFront ++ name) = name := by
  have hnone : ∀ b ∈ ([] : GoString), b = slash := fun b hb => absurd hb List.not_mem_nil
  have hbase := base_append (inFront_cases p) hname hne hnone
  rwa [List.append_nil] at hbase

example : clean (str "a//./b/../c/") = str "a/c" := by decide

end FilePath

end Go
