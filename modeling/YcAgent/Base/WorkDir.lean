import YcAgent.Base.FilePath

/-!
# The working directory of a process

A directory is known by its number, which it keeps when it is removed; no two that
are there have one path. A relative path is read from the working directory, so what
it names changes with it. The working directory itself may be one that was removed; then
the only way out of it is by `..`, where the system still knows what that is.
-/
namespace Go

/-- A path from the root, as its components. -/
abbrev DirPath := List GoString

/-- Every directory that was made, with its path as long as it is there. A directory stays in the
one above it; `above` tells which that is as far as `..` still leads there behind a removal. -/
structure Disk where
  dirs : List (Option DirPath)
  above : Nat → Option Nat
  distinct : ∀ (i j : Nat) (p : DirPath),
    dirs[i]? = some (some p) → dirs[j]? = some (some p) → i = j

namespace Disk

def pathOf (d : Disk) (i : Nat) : Option DirPath := d.dirs[i]?.join

def lookup (d : Disk) (p : DirPath) : Option Nat := d.dirs.findIdx? (· == some p)

theorem pathOf_eq_some_iff {d : Disk} {i : Nat} {p : DirPath} :
    d.pathOf i = some p ↔ d.dirs[i]? = some (some p) := by
  rw [pathOf, Option.join_eq_some_iff]

theorem lookup_eq_some_iff {d : Disk} {i : Nat} {p : DirPath} :
    d.lookup p = some i ↔ d.pathOf i = some p := by
  rw [lookup, List.findIdx?_eq_some_iff_getElem, pathOf_eq_some_iff]
  constructor
  · intro h
    obtain ⟨hi, hp, -⟩ := h
    rw [List.getElem?_eq_getElem hi, beq_iff_eq.mp hp]
  · intro h
    obtain ⟨hi, hp⟩ := List.getElem?_eq_some_iff.mp h
    refine ⟨hi, beq_iff_eq.mpr hp, fun j hj hjp => ?_⟩
    have hjlt : j < d.dirs.length := Nat.lt_trans hj hi
    have hj' : d.dirs[j]? = some (some p) := by
      rw [List.getElem?_eq_getElem hjlt, beq_iff_eq.mp hjp]
    exact Nat.ne_of_lt hj (d.distinct j i p hj' h)

theorem distinct_snoc {d : Disk} {p : DirPath} (h : d.lookup p = none) (i j : Nat) (q : DirPath)
    (hi : (d.dirs ++ [some p])[i]? = some (some q))
    (hj : (d.dirs ++ [some p])[j]? = some (some q)) : i = j := by
  have hold : ∀ k : Nat, (d.dirs ++ [some p])[k]? = some (some q) →
      d.dirs[k]? = some (some q) ∨ (k = d.dirs.length ∧ q = p) := by
    intro k hk
    rcases Nat.lt_trichotomy k d.dirs.length with hlt | heq | hgt
    · rw [List.getElem?_append_left hlt] at hk
      exact Or.inl hk
    · rw [heq, List.getElem?_concat_length] at hk
      exact Or.inr ⟨heq, (Option.some.inj (Option.some.inj hk)).symm⟩
    · rw [List.getElem?_eq_none (by rw [List.length_append, List.length_singleton]; omega)] at hk
      cases hk
  have hnew : ∀ k : Nat, d.dirs[k]? = some (some p) → False := by
    intro k hk
    rw [lookup_eq_some_iff.mpr (pathOf_eq_some_iff.mpr hk)] at h
    cases h
  rcases hold i hi with hi | hi <;> rcases hold j hj with hj | hj
  · exact d.distinct i j q hi hj
  · exact absurd (hj.2 ▸ hi) (hnew i)
  · exact absurd (hi.2 ▸ hj) (hnew j)
  · rw [hi.1, hj.1]

/-- A new directory, where nothing has the path and its parent is there. -/
def mkdir (d : Disk) (p : DirPath) : Option Disk :=
  if h : d.lookup p = none then
    if (d.lookup p.dropLast).isSome then some ⟨d.dirs ++ [some p], d.above, distinct_snoc h⟩
    else none
  else none

theorem mkdir_dirs {d d' : Disk} {p : DirPath} (h : d.mkdir p = some d') :
    d'.dirs = d.dirs ++ [some p] := by
  unfold mkdir at h
  split at h
  · split at h
    · rw [← Option.some.inj h]
    · cases h
  · cases h

theorem mkdir_above {d d' : Disk} {p : DirPath} (h : d.mkdir p = some d') :
    d'.above = d.above := by
  unfold mkdir at h
  split at h
  · split at h
    · rw [← Option.some.inj h]
    · cases h
  · cases h

theorem lookup_of_mkdir {d d' : Disk} {p : DirPath} (h : d.mkdir p = some d') :
    d.lookup p = none := by
  unfold mkdir at h
  split at h
  · rename_i hnone
    exact hnone
  · cases h

theorem pathOf_mkdir_self {d d' : Disk} {p : DirPath} (h : d.mkdir p = some d') :
    d'.pathOf d.dirs.length = some p := by
  rw [pathOf_eq_some_iff, mkdir_dirs h, List.getElem?_concat_length]

theorem pathOf_mkdir {d d' : Disk} {p q : DirPath} {i : Nat} (h : d.mkdir p = some d')
    (hi : d.pathOf i = some q) : d'.pathOf i = some q := by
  rw [pathOf_eq_some_iff] at hi ⊢
  have hlt := (List.getElem?_eq_some_iff.mp hi).choose
  rw [mkdir_dirs h, List.getElem?_append_left hlt, hi]

/-- Everything at the path and below it. -/
def removeAll (d : Disk) (p : DirPath) : Disk where
  dirs := d.dirs.map (Option.filter fun q => !p.isPrefixOf q)
  above := d.above
  distinct := by
    have hold : ∀ (k : Nat) (q : DirPath),
        (d.dirs.map (Option.filter fun q => !p.isPrefixOf q))[k]? = some (some q) →
          d.dirs[k]? = some (some q) := by
      intro k q hk
      rw [List.getElem?_map, Option.map_eq_some_iff] at hk
      obtain ⟨o, ho, hq⟩ := hk
      rw [ho, (Option.filter_eq_some_iff.mp hq).1]
    intro i j q hi hj
    exact d.distinct i j q (hold i q hi) (hold j q hj)

theorem pathOf_removeAll {d : Disk} {p q : DirPath} {i : Nat} :
    (d.removeAll p).pathOf i = some q ↔ d.pathOf i = some q ∧ ¬ p <+: q := by
  rw [pathOf_eq_some_iff, pathOf_eq_some_iff]
  show (d.dirs.map (Option.filter fun q => !p.isPrefixOf q))[i]? = some (some q) ↔ _
  rw [List.getElem?_map, Option.map_eq_some_iff]
  constructor
  · rintro ⟨dir, hdir, hq⟩
    obtain ⟨rfl, hfilter⟩ := Option.filter_eq_some_iff.mp hq
    refine ⟨hdir, fun hbelow => ?_⟩
    rw [List.isPrefixOf_iff_prefix.mpr hbelow] at hfilter
    cases hfilter
  · rintro ⟨hdir, hbelow⟩
    refine ⟨some q, hdir, Option.filter_eq_some_iff.mpr ⟨rfl, ?_⟩⟩
    rw [Bool.not_eq_true', ← Bool.not_eq_true, List.isPrefixOf_iff_prefix]
    exact hbelow

/-- A directory is there with all those above it. -/
def Rooted (d : Disk) : Prop :=
  ∀ (i : Nat) (p q : DirPath), d.pathOf i = some p → q <+: p → d.lookup q ≠ none

theorem distinct_singleton (p : DirPath) (i j : Nat) (q : DirPath)
    (hi : [some p][i]? = some (some q)) (hj : [some p][j]? = some (some q)) : i = j := by
  have hi := (List.getElem?_eq_some_iff.mp hi).choose
  have hj := (List.getElem?_eq_some_iff.mp hj).choose
  rw [List.length_singleton] at hi hj
  omega

/-- The root alone. -/
def root : Disk := ⟨[some []], fun _ => none, distinct_singleton []⟩

theorem rooted_root : root.Rooted := by
  intro i p q hp hq
  rw [pathOf_eq_some_iff] at hp
  obtain rfl : [] = p :=
    Option.some.inj (List.mem_singleton.mp (List.mem_of_getElem? hp)).symm
  rw [List.prefix_nil.mp hq]
  decide

theorem rooted_mkdir {d d' : Disk} {p : DirPath} (hd : d.Rooted) (h : d.mkdir p = some d') :
    d'.Rooted := by
  have hold : ∀ q, d.lookup q ≠ none → d'.lookup q ≠ none := by
    intro q hq
    obtain ⟨i, hi⟩ := Option.ne_none_iff_exists'.mp hq
    rw [lookup_eq_some_iff.mpr (pathOf_mkdir h (lookup_eq_some_iff.mp hi))]
    exact Option.some_ne_none i
  have hparent : d.lookup p.dropLast ≠ none := by
    intro hnone
    simp [mkdir, hnone] at h
  intro i p' q hp' hq
  rw [pathOf_eq_some_iff, mkdir_dirs h] at hp'
  rcases List.mem_append.mp (List.mem_of_getElem? hp') with hmem | hnew
  · obtain ⟨j, hj⟩ := List.getElem?_of_mem hmem
    exact hold q (hd j p' q (pathOf_eq_some_iff.mpr hj) hq)
  · obtain rfl : p' = p := Option.some.inj (List.mem_singleton.mp hnew)
    by_cases hself : q = p'
    · rw [hself, lookup_eq_some_iff.mpr (pathOf_mkdir_self h)]
      exact Option.some_ne_none _
    · -- above the new directory is its parent or what is above that
      obtain ⟨j, hj⟩ := Option.ne_none_iff_exists'.mp hparent
      refine hold q (hd j p'.dropLast q (lookup_eq_some_iff.mp hj) ?_)
      obtain ⟨rest, hrest⟩ := hq
      have hne : rest ≠ [] := by
        intro hnil
        rw [hnil, List.append_nil] at hrest
        exact hself hrest
      rw [← hrest, List.dropLast_append_of_ne_nil hne]
      exact List.prefix_append _ _

theorem rooted_removeAll {d : Disk} (hd : d.Rooted) (p : DirPath) : (d.removeAll p).Rooted := by
  intro i q r hq hr
  obtain ⟨hq, hbelow⟩ := pathOf_removeAll.mp hq
  obtain ⟨j, hj⟩ := Option.ne_none_iff_exists'.mp (hd i q r hq hr)
  have hkept : (d.removeAll p).pathOf j = some r :=
    pathOf_removeAll.mpr ⟨lookup_eq_some_iff.mp hj, fun hp => hbelow (hp.trans hr)⟩
  rw [lookup_eq_some_iff.mpr hkept]
  exact Option.some_ne_none j

/-- The directories of `d` are all there, where they were. -/
def Kept (d d' : Disk) : Prop :=
  ∀ (i : Nat) (p : DirPath), d.pathOf i = some p → d'.pathOf i = some p

/-- A removal keeps older directories if and only if its path names none of them. -/
theorem kept_removeAll_iff {d d' : Disk} (hd : d.Rooted) (hkept : Kept d d') (p : DirPath) :
    Kept d (d'.removeAll p) ↔ d.lookup p = none := by
  constructor
  · intro h
    by_contra hne
    obtain ⟨i, hi⟩ := Option.ne_none_iff_exists'.mp hne
    exact (pathOf_removeAll.mp (h i p (lookup_eq_some_iff.mp hi))).2 List.prefix_rfl
  · intro hnone i q hq
    exact pathOf_removeAll.mpr ⟨hkept i q hq, fun hbelow => hd i q p hq hbelow hnone⟩

/-- The directory that a relative name is read from, with the rest of the name. -/
def leave (d : Disk) : Nat → List GoString → Option (DirPath × List GoString)
  | i, [] => (d.pathOf i).map fun here => (here, [])
  | i, c :: cs =>
    match d.dirs[i]? with
    | none => none
    | some (some here) => some (here, c :: cs)
    | some none =>
      if c = [dot, dot] then (d.above i).bind fun j => d.leave j cs
      else if c = [] ∨ c = [dot] then d.leave i cs
      else none

theorem leave_of_pathOf {d : Disk} {i : Nat} {here : DirPath} (h : d.pathOf i = some here)
    (cs : List GoString) : d.leave i cs = some (here, cs) := by
  cases cs with
  | nil => rw [leave, h, Option.map_some]
  | cons c cs => rw [leave, pathOf_eq_some_iff.mp h]

theorem lt_of_leave {d : Disk} {i : Nat} {cs : List GoString} {r : DirPath × List GoString}
    (h : d.leave i cs = some r) : i < d.dirs.length := by
  by_contra hge
  have hnone : d.dirs[i]? = none := List.getElem?_eq_none (by omega)
  cases cs with
  | nil =>
    rw [leave, pathOf, hnone] at h
    cases h
  | cons c cs =>
    rw [leave, hnone] at h
    cases h

/-- A new directory does not change where a name leads. -/
theorem leave_mkdir {d d' : Disk} {p : DirPath} (hmkdir : d.mkdir p = some d') {i : Nat}
    {cs : List GoString} {r : DirPath × List GoString} (h : d.leave i cs = some r) :
    d'.leave i cs = some r := by
  induction cs generalizing i with
  | nil =>
    obtain ⟨here, hhere, rfl⟩ := Option.map_eq_some_iff.mp h
    exact leave_of_pathOf (pathOf_mkdir hmkdir hhere) []
  | cons c cs ih =>
    have hsame : d'.dirs[i]? = d.dirs[i]? := by
      rw [mkdir_dirs hmkdir, List.getElem?_append_left (lt_of_leave h)]
    rw [leave] at h ⊢
    rw [hsame, mkdir_above hmkdir]
    split at h
    · cases h
    · exact h
    · split at h
      · rename_i hup
        rw [if_pos hup]
        obtain ⟨j, hj, hrest⟩ := Option.bind_eq_some_iff.mp h
        rw [hj]
        exact ih hrest
      · rename_i hup
        rw [if_neg hup]
        split at h
        · rename_i hstay
          rw [if_pos hstay]
          exact ih h
        · cases h

end Disk

/-- What a path names for a process that works in `here`. -/
def resolve (here : DirPath) (p : GoString) : DirPath :=
  pushAll true (if p.head? = some slash then [] else here) (split p slash)

/-- The directories, and the number of the one that the process works in. -/
structure WorkDir where
  disk : Disk
  cwd : Nat

namespace WorkDir

/-- `os.Getwd`; it fails where the working directory was removed. -/
def getwd (w : WorkDir) : Option DirPath := w.disk.pathOf w.cwd

/-- The path that a name stands for. Only a relative name needs the working directory. -/
def resolved (w : WorkDir) (p : GoString) : Option DirPath :=
  if p.head? = some slash then some (resolve [] p)
  else (w.disk.leave w.cwd (split p slash)).map fun r => pushAll true r.1 r.2

/-- The directory that a path names. -/
def target (w : WorkDir) (p : GoString) : Option Nat :=
  (w.resolved p).bind w.disk.lookup

/-- `os.Mkdir`, with the number of the new directory. -/
def mkdir (w : WorkDir) (p : GoString) : Option (WorkDir × Nat) := do
  let path ← w.resolved p
  let disk ← w.disk.mkdir path
  return ({ w with disk := disk }, w.disk.dirs.length)

/-- `os.Chdir`. -/
def chdir (w : WorkDir) (p : GoString) : Option WorkDir :=
  (w.target p).map fun id => { w with cwd := id }

/-- `os.Chdir`, with a path that `os.Getwd` returned. -/
def chdirTo (w : WorkDir) (dir : DirPath) : Option WorkDir :=
  (w.disk.lookup dir).map fun id => { w with cwd := id }

/-- `os.RemoveAll`, which does nothing where the path names nothing. -/
def removeAll (w : WorkDir) (p : GoString) : WorkDir :=
  match w.resolved p with
  | none => w
  | some path => { w with disk := w.disk.removeAll path }

/-- From a directory that is there, both kinds of names are read in one way. -/
theorem resolved_of_getwd {w : WorkDir} {here : DirPath} (h : w.getwd = some here)
    (p : GoString) : w.resolved p = some (resolve here p) := by
  unfold resolved resolve
  split
  · rfl
  · rw [Disk.leave_of_pathOf h, Option.map_some]

/-- An absolute name does not depend on the working directory. -/
theorem resolved_of_rooted {p : GoString} (hp : p.head? = some slash) (w w' : WorkDir) :
    w.resolved p = w'.resolved p := by
  rw [resolved, resolved, if_pos hp, if_pos hp]

theorem chdir_eq_some_iff {w w' : WorkDir} {p : GoString} :
    w.chdir p = some w' ↔ ∃ id, w.target p = some id ∧ w' = { w with cwd := id } := by
  rw [chdir, Option.map_eq_some_iff]
  exact exists_congr fun id => and_congr_right fun _ => eq_comm

/-- What a new directory is: the last one, at the path that was asked for. -/
theorem mkdir_eq_some {w w' : WorkDir} {p : GoString} {id : Nat} (h : w.mkdir p = some (w', id)) :
    ∃ path, w.resolved p = some path ∧ w.disk.mkdir path = some w'.disk ∧
      w'.cwd = w.cwd ∧ w'.disk.pathOf id = some path := by
  obtain ⟨path, hpath, h⟩ := Option.bind_eq_some_iff.mp h
  obtain ⟨disk, hdisk, h⟩ := Option.bind_eq_some_iff.mp h
  obtain ⟨rfl, rfl⟩ := Prod.mk.inj (Option.some.inj h)
  exact ⟨path, hpath, hdisk, rfl, Disk.pathOf_mkdir_self hdisk⟩

theorem mkdir_id {w w' : WorkDir} {p : GoString} {id : Nat} (h : w.mkdir p = some (w', id)) :
    id = w.disk.dirs.length := by
  obtain ⟨path, -, h⟩ := Option.bind_eq_some_iff.mp h
  obtain ⟨disk, -, h⟩ := Option.bind_eq_some_iff.mp h
  exact (Prod.mk.inj (Option.some.inj h)).2.symm

theorem cwd_mkdir {w w' : WorkDir} {p : GoString} {id : Nat} (h : w.mkdir p = some (w', id)) :
    w'.cwd = w.cwd := by
  obtain ⟨path, -, -, hcwd, -⟩ := mkdir_eq_some h
  exact hcwd

/-- A name stands for the same path behind the making of a directory. -/
theorem resolved_mkdir {w w' : WorkDir} {p q : GoString} {id : Nat} {path : DirPath}
    (h : w.mkdir p = some (w', id)) (hq : w.resolved q = some path) :
    w'.resolved q = some path := by
  obtain ⟨made, -, hdisk, hcwd, -⟩ := mkdir_eq_some h
  unfold resolved at hq ⊢
  split
  · rename_i hrooted
    rw [if_pos hrooted] at hq
    exact hq
  · rename_i hrooted
    rw [if_neg hrooted] at hq
    obtain ⟨r, hr, rfl⟩ := Option.map_eq_some_iff.mp hq
    rw [hcwd, Disk.leave_mkdir hdisk hr, Option.map_some]

/-- A directory made by a relative name is not the working directory. -/
theorem getwd_mkdir_none {w w' : WorkDir} {p : GoString} {id : Nat}
    (h : w.mkdir p = some (w', id)) (hp : p.head? ≠ some slash) (hhere : w.getwd = none) :
    w'.getwd = none := by
  obtain ⟨path, hpath, hdisk, hcwd, -⟩ := mkdir_eq_some h
  rw [resolved, if_neg hp] at hpath
  obtain ⟨r, hr, -⟩ := Option.map_eq_some_iff.mp hpath
  rw [getwd, Disk.pathOf, hcwd, Disk.mkdir_dirs hdisk,
    List.getElem?_append_left (Disk.lt_of_leave hr)]
  exact hhere

/-- The path of a new directory names it. -/
theorem target_mkdir {w w' : WorkDir} {p : GoString} {id : Nat} (h : w.mkdir p = some (w', id)) :
    w'.target p = some id := by
  obtain ⟨path, hpath, -, -, hid⟩ := mkdir_eq_some h
  rw [target, resolved_mkdir h hpath, Option.bind_some]
  exact Disk.lookup_eq_some_iff.mpr hid

theorem disk_chdir {w w' : WorkDir} {p : GoString} (h : w.chdir p = some w') :
    w'.disk = w.disk := by
  obtain ⟨id, -, rfl⟩ := chdir_eq_some_iff.mp h
  rfl

@[simp] theorem cwd_removeAll (w : WorkDir) (p : GoString) : (w.removeAll p).cwd = w.cwd := by
  unfold removeAll
  split <;> rfl

/-- The path that `os.Getwd` returns names nothing but the working directory. -/
theorem lookup_getwd {w : WorkDir} {dir : DirPath} (h : w.getwd = some dir) :
    w.disk.lookup dir = some w.cwd :=
  Disk.lookup_eq_some_iff.mpr h

end WorkDir

end Go
