import Mathlib.Data.List.Sort
import Mathlib.Data.List.Lex

/-!
# Files in the order of their names

A listing has one entry for a name and keeps the entries in the order of the names, which
is the order in which a shell expands a pattern. The contents may be of any type, and all
operations commute with a change of the contents.
-/

structure Listing (κ γ : Type*) [LinearOrder κ] where
  files : List (κ × γ)
  sorted : files.Pairwise fun f g => f.1 < g.1

namespace Listing

variable {κ γ δ : Type*} [LinearOrder κ]

/-- The entries with one added, or replaced where the name is there. -/
def assign (name : κ) (x : γ) : List (κ × γ) → List (κ × γ)
  | [] => [(name, x)]
  | f :: fs =>
    if name < f.1 then (name, x) :: f :: fs
    else if name = f.1 then (name, x) :: fs
    else f :: assign name x fs

theorem mem_assign {name : κ} {x : γ} {fs : List (κ × γ)}
    (hsorted : fs.Pairwise fun f g => f.1 < g.1) {g : κ × γ} :
    g ∈ assign name x fs ↔ g = (name, x) ∨ (g ∈ fs ∧ g.1 ≠ name) := by
  induction fs with
  | nil => simp [assign]
  | cons f fs ih =>
    obtain ⟨hf, hfs⟩ := List.pairwise_cons.mp hsorted
    rw [assign]
    split
    · rename_i hlt
      have hne : ∀ h ∈ f :: fs, h.1 ≠ name := by
        intro h hh heq
        rcases List.mem_cons.mp hh with rfl | hh
        · exact absurd heq (ne_of_gt hlt)
        · exact absurd heq (ne_of_gt (hlt.trans (hf h hh)))
      rw [List.mem_cons]
      exact or_congr_right ⟨fun h => ⟨h, hne g h⟩, fun h => h.1⟩
    · rename_i hge
      split
      · rename_i heq
        have hne : ∀ h ∈ fs, h.1 ≠ name := fun h hh => ne_of_gt (heq ▸ hf h hh)
        rw [List.mem_cons, List.mem_cons]
        constructor
        · intro h
          exact h.imp_right fun h => ⟨Or.inr h, hne g h⟩
        · intro h
          rcases h with h | ⟨h | h, hg⟩
          · exact Or.inl h
          · exact absurd (h ▸ heq.symm) hg
          · exact Or.inr h
      · rename_i hne
        rw [List.mem_cons, ih hfs, List.mem_cons]
        constructor
        · intro h
          rcases h with rfl | h | ⟨h, hg⟩
          · exact Or.inr ⟨Or.inl rfl, fun heq => hne heq.symm⟩
          · exact Or.inl h
          · exact Or.inr ⟨Or.inr h, hg⟩
        · intro h
          rcases h with h | ⟨h | h, hg⟩
          · exact Or.inr (Or.inl h)
          · exact Or.inl h
          · exact Or.inr (Or.inr ⟨h, hg⟩)

theorem sorted_assign (name : κ) (x : γ) {fs : List (κ × γ)}
    (hsorted : fs.Pairwise fun f g => f.1 < g.1) :
    (assign name x fs).Pairwise fun f g => f.1 < g.1 := by
  induction fs with
  | nil => exact List.pairwise_singleton _ _
  | cons f fs ih =>
    obtain ⟨hf, hfs⟩ := List.pairwise_cons.mp hsorted
    rw [assign]
    split
    · rename_i hlt
      refine List.pairwise_cons.mpr ⟨fun g hg => ?_, hsorted⟩
      rcases List.mem_cons.mp hg with rfl | hg
      · exact hlt
      · exact hlt.trans (hf g hg)
    · rename_i hge
      split
      · rename_i heq
        exact List.pairwise_cons.mpr ⟨fun g hg => heq ▸ hf g hg, hfs⟩
      · rename_i hne
        refine List.pairwise_cons.mpr ⟨fun g hg => ?_, ih hfs⟩
        rcases (mem_assign hfs).mp hg with rfl | ⟨hg, _⟩
        · exact lt_of_le_of_ne (not_lt.mp hge) fun heq => hne heq.symm
        · exact hf g hg

def empty : Listing κ γ := ⟨[], List.Pairwise.nil⟩

def write (l : Listing κ γ) (name : κ) (x : γ) : Listing κ γ :=
  ⟨assign name x l.files, sorted_assign name x l.sorted⟩

def writeAll (l : Listing κ γ) (ws : List (κ × γ)) : Listing κ γ :=
  ws.foldl (fun l w => l.write w.1 w.2) l

/-- The entries whose names match, in order. -/
def entries (l : Listing κ γ) (p : κ → Bool) : List (κ × γ) := l.files.filter fun f => p f.1

/-- What reading the files one after another yields. -/
def contents (l : Listing κ γ) (p : κ → Bool) : List γ := (l.entries p).map Prod.snd

theorem mem_write {l : Listing κ γ} {name : κ} {x : γ} {g : κ × γ} :
    g ∈ (l.write name x).files ↔ g = (name, x) ∨ (g ∈ l.files ∧ g.1 ≠ name) :=
  mem_assign l.sorted

/-- Files with different names stay as they were written, and no other file changes. -/
theorem mem_writeAll {ws : List (κ × γ)} (hnames : (ws.map Prod.fst).Nodup)
    {l : Listing κ γ} {g : κ × γ} :
    g ∈ (l.writeAll ws).files ↔ g ∈ ws ∨ (g ∈ l.files ∧ g.1 ∉ ws.map Prod.fst) := by
  induction ws generalizing l with
  | nil => simp [writeAll]
  | cons w ws ih =>
    rw [List.map_cons, List.nodup_cons] at hnames
    have hrest := ih hnames.2 (l := l.write w.1 w.2)
    refine hrest.trans ?_
    rw [mem_write, List.mem_cons, List.map_cons, List.mem_cons, not_or]
    constructor
    · intro h
      rcases h with h | ⟨h | ⟨h, hw⟩, hws⟩
      · exact Or.inl (Or.inr h)
      · exact Or.inl (Or.inl h)
      · exact Or.inr ⟨h, hw, hws⟩
    · intro h
      rcases h with (h | h) | ⟨h, hw, hws⟩
      · exact Or.inr ⟨Or.inl h, h ▸ hnames.1⟩
      · exact Or.inl h
      · exact Or.inr ⟨Or.inr ⟨h, hw⟩, hws⟩

theorem mem_entries {l : Listing κ γ} {p : κ → Bool} {g : κ × γ} :
    g ∈ l.entries p ↔ g ∈ l.files ∧ p g.1 = true :=
  List.mem_filter

theorem sorted_entries (l : Listing κ γ) (p : κ → Bool) :
    (l.entries p).Pairwise fun f g => f.1 < g.1 :=
  l.sorted.filter _

/-- The matching files are those that were written, in the order in which they were, exactly
if nothing else that matches was there and their names are in order. -/
theorem entries_writeAll_iff {ws : List (κ × γ)} (hnames : (ws.map Prod.fst).Nodup)
    (l : Listing κ γ) (p : κ → Bool) :
    (l.writeAll ws).entries p = ws.filter (fun w => p w.1) ↔
      (∀ g ∈ l.entries p, g.1 ∈ ws.map Prod.fst) ∧
        (ws.filter fun w => p w.1).Pairwise fun f g => f.1 < g.1 := by
  constructor
  · intro h
    refine ⟨fun g hg => ?_, h ▸ sorted_entries _ _⟩
    by_contra hno
    obtain ⟨hfile, hp⟩ := mem_entries.mp hg
    have hleft : g ∈ (l.writeAll ws).entries p :=
      mem_entries.mpr ⟨(mem_writeAll hnames).mpr (Or.inr ⟨hfile, hno⟩), hp⟩
    rw [h] at hleft
    exact hno (List.mem_map_of_mem (List.mem_of_mem_filter hleft))
  · intro h
    obtain ⟨hover, hsorted⟩ := h
    have hirrefl : Std.Irrefl fun f g : κ × γ => f.1 < g.1 := ⟨fun f => lt_irrefl f.1⟩
    have hanti : Std.Antisymm fun f g : κ × γ => f.1 < g.1 :=
      ⟨fun f g hfg hgf => absurd hfg (lt_asymm hgf)⟩
    refine (sorted_entries _ _).eq_of_mem_iff hsorted fun g => ?_
    rw [mem_entries, mem_writeAll hnames, List.mem_filter]
    constructor
    · intro h
      obtain ⟨h | ⟨hfile, hno⟩, hp⟩ := h
      · exact ⟨h, hp⟩
      · exact absurd (hover g (mem_entries.mpr ⟨hfile, hp⟩)) hno
    · intro h
      exact ⟨Or.inl h.1, h.2⟩

section Map

variable (f : γ → δ)

def map (l : Listing κ γ) : Listing κ δ :=
  ⟨l.files.map (Prod.map id f), List.pairwise_map.mpr l.sorted⟩

theorem assign_map (name : κ) (x : γ) (fs : List (κ × γ)) :
    assign name (f x) (fs.map (Prod.map id f)) = (assign name x fs).map (Prod.map id f) := by
  induction fs with
  | nil => rfl
  | cons g fs ih =>
    rw [List.map_cons, assign, assign, ih]
    show (if name < g.1 then _ else if name = g.1 then _ else _) = _
    split
    · rfl
    · split <;> rfl

theorem write_map (l : Listing κ γ) (name : κ) (x : γ) :
    (l.map f).write name (f x) = (l.write name x).map f := by
  simp only [write, map, mk.injEq]
  exact assign_map f name x l.files

theorem writeAll_map (l : Listing κ γ) (ws : List (κ × γ)) :
    (l.map f).writeAll (ws.map (Prod.map id f)) = (l.writeAll ws).map f := by
  induction ws generalizing l with
  | nil => rfl
  | cons w ws ih => exact (congrArg (fun l => writeAll l _) (write_map f l w.1 w.2)).trans (ih _)

theorem contents_map (l : Listing κ γ) (p : κ → Bool) :
    (l.map f).contents p = (l.contents p).map f := by
  simp only [contents, entries, map, List.filter_map, List.map_map]
  rfl

end Map

/-- Lists that no map into a type with two values tells apart are the same. -/
theorem eq_of_forall_map_eq {α β : Type*} [DecidableEq α] {b c : β} (hbc : b ≠ c) {l m : List α}
    (h : ∀ f : α → β, l.map f = m.map f) : l = m := by
  have hlen : l.length = m.length := by
    have := congrArg List.length (h fun _ => b)
    rwa [List.length_map, List.length_map] at this
  refine List.ext_getElem hlen fun i hi hi' => ?_
  have hat := congrArg (fun k => k[i]?) (h fun a => if a = l[i] then b else c)
  simp only [List.getElem?_map, List.getElem?_eq_getElem hi, List.getElem?_eq_getElem hi',
    Option.map_some, if_true, Option.some.injEq] at hat
  by_contra hne
  rw [if_neg fun heq => hne heq.symm] at hat
  exact hbc hat

/-- A name has one entry. -/
theorem eq_of_mem {l : Listing κ γ} {name : κ} {x y : γ} (hx : (name, x) ∈ l.files)
    (hy : (name, y) ∈ l.files) : x = y := by
  have hnames : (l.files.map Prod.fst).Nodup := List.pairwise_map.mpr (l.sorted.imp ne_of_lt)
  exact congrArg Prod.snd (List.inj_on_of_nodup_map hnames hx hy rfl)

/-! ## Removals -/

def remove (l : Listing κ γ) (name : κ) : Listing κ γ :=
  ⟨l.files.filter fun f => decide (f.1 ≠ name), l.sorted.filter _⟩

theorem mem_remove {l : Listing κ γ} {name : κ} {g : κ × γ} :
    g ∈ (l.remove name).files ↔ g ∈ l.files ∧ g.1 ≠ name := by
  rw [remove, List.mem_filter, decide_eq_true_iff]

/-- The entries from the first one on that `p` does not take. -/
def dropWhile (l : Listing κ γ) (p : κ × γ → Bool) : Listing κ γ :=
  ⟨l.files.dropWhile p, l.sorted.sublist (List.dropWhile_sublist p)⟩

/-- An entry stays where `p` does not take one at its name or before. -/
theorem mem_dropWhile {l : Listing κ γ} {p : κ × γ → Bool} {f : κ × γ} :
    f ∈ (l.dropWhile p).files ↔ f ∈ l.files ∧ ∃ g ∈ l.files, g.1 ≤ f.1 ∧ p g = false := by
  obtain ⟨fs, hsorted⟩ := l
  change f ∈ fs.dropWhile p ↔ f ∈ fs ∧ ∃ g ∈ fs, g.1 ≤ f.1 ∧ p g = false
  induction fs with
  | nil => simp
  | cons e fs ih =>
    obtain ⟨he, hfs⟩ := List.pairwise_cons.mp hsorted
    cases hp : p e with
    | false =>
      rw [List.dropWhile_cons_of_neg (by simp [hp])]
      refine (and_iff_left_of_imp fun hf => ⟨e, List.mem_cons_self, ?_, hp⟩).symm
      rcases List.mem_cons.mp hf with rfl | hf
      · exact le_rfl
      · exact (he f hf).le
    | true =>
      rw [List.dropWhile_cons_of_pos hp, ih hfs]
      constructor
      · rintro ⟨hf, g, hg, hle, hpg⟩
        exact ⟨List.mem_cons_of_mem e hf, g, List.mem_cons_of_mem e hg, hle, hpg⟩
      · rintro ⟨hf, g, hg, hle, hpg⟩
        have hge : g ∈ fs := by
          rcases List.mem_cons.mp hg with rfl | hg
          · rw [hp] at hpg
            cases hpg
          · exact hg
        rcases List.mem_cons.mp hf with rfl | hf
        · exact absurd (he g hge) (not_lt_of_ge hle)
        · exact ⟨hf, g, hge, hle, hpg⟩

/-! ## Changes one after another -/

inductive Edit (κ γ : Type*) where
  | write (name : κ) (x : γ)
  | remove (name : κ)

def Edit.name : Edit κ γ → κ
  | .write name _ => name
  | .remove name => name

def edit (l : Listing κ γ) : Edit κ γ → Listing κ γ
  | .write name x => l.write name x
  | .remove name => l.remove name

def edits (l : Listing κ γ) (es : List (Edit κ γ)) : Listing κ γ := es.foldl edit l

/-- An entry that no change names stays, or stays away. -/
theorem mem_edits_of_forall_ne {es : List (Edit κ γ)} {l : Listing κ γ} {g : κ × γ}
    (h : ∀ e ∈ es, e.name ≠ g.1) : g ∈ (l.edits es).files ↔ g ∈ l.files := by
  induction es generalizing l with
  | nil => exact Iff.rfl
  | cons e es ih =>
    obtain ⟨he, hes⟩ := List.forall_mem_cons.mp h
    refine (ih hes).trans ?_
    cases e with
    | write name x =>
      refine mem_write.trans ⟨fun hg => ?_, fun hg => Or.inr ⟨hg, Ne.symm he⟩⟩
      rcases hg with rfl | hg
      · exact absurd rfl he
      · exact hg.1
    | remove name => exact mem_remove.trans (and_iff_left (Ne.symm he))

end Listing
