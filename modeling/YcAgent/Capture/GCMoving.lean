import YcAgent.Base.Fallible
import YcAgent.Capture.GCDisk

/-!
# Rotating logs while they are looked at

The matches of a glob are looked up one by one, and by then a file may be gone. The state of the
system at each of these moments is a parameter. A file that is gone leaves an entry without
information in the list, which is read when the list is sorted or its first entry is taken.
Where nothing moves, the lookup is that of the collection (`findLatest_const`).
-/
namespace YcAgent.Capture.GCMoving

open Go Go.FilePath

variable {σ : Type} (sys : System σ) (gcPath : GoString)

/-- `findLatestFileInRotatingLogFiles`: the glob is at moment 0, the existence check at 1, and a
lookup each at those behind. None is the panic on an entry without information. -/
def findLatestFileInRotatingLogFiles (sorter : SortSlice) (moments : ℕ → σ) : Option GoString :=
  match sys.glob (gcPath ++ str ".*") (moments 0) with
  | .error _ => some gcPath
  | .ok files =>
    let files := if fileExists sys gcPath (moments 1) then files ++ [gcPath] else files
    ((files.zipIdx 2).mapM fun file => (sys.lstat file.1 (moments file.2)).toOption).map
      fun fileInfos =>
        match sorter.sort newer fileInfos with
        | [] => gcPath
        | info :: _ => joinPath [dir gcPath, info.name]

/-- The matches, each with the moment of its lookup. -/
def lookups (moments : ℕ → σ) : List (GoString × ℕ) :=
  match sys.glob (gcPath ++ str ".*") (moments 0) with
  | .error _ => []
  | .ok files =>
    (if fileExists sys gcPath (moments 1) then files ++ [gcPath] else files).zipIdx 2

def lookup (moments : ℕ → σ) (file : GoString × ℕ) : Option (GoString × FileInfo) :=
  (sys.lstat file.1 (moments file.2)).toOption.map fun info => (file.1, info)

/-- The matches that were found again, with what was found. -/
def found (moments : ℕ → σ) : List (GoString × FileInfo) :=
  (lookups sys gcPath moments).filterMap (lookup sys moments)

def IsNewest (files : List (GoString × FileInfo)) (file : GoString × FileInfo) : Prop :=
  file ∈ files ∧ ∀ g ∈ files, g.2.modTime ≤ file.2.modTime

/-- A path of a newest file among those found, or `gcPath` where none is. -/
def Answers (moments : ℕ → σ) (r : Option GoString) : Prop :=
  ∃ path, r = some path ∧
    (found sys gcPath moments = [] ∧ path = gcPath ∨
      ∃ file, IsNewest (found sys gcPath moments) file ∧ clean path = clean file.1)

/-- Every match is found again, and under the name of a newest one there is a newest one in the
directory of `gcPath`. -/
structure Steady (moments : ℕ → σ) : Prop where
  stays : ∀ file ∈ lookups sys gcPath moments, ∃ info, sys.lstat file.1 (moments file.2) = .ok info
  beside : ∀ file, IsNewest (found sys gcPath moments) file →
    ∃ g, IsNewest (found sys gcPath moments) g ∧
      clean (joinPath [dir gcPath, file.2.name]) = clean g.1

/-- Where nothing moves it is the lookup of the collection. -/
theorem findLatest_const (sorter : SortSlice) (s : σ) :
    findLatestFileInRotatingLogFiles sys gcPath sorter (fun _ => s) =
      Capture.findLatestFileInRotatingLogFiles sys sorter gcPath s := by
  unfold findLatestFileInRotatingLogFiles Capture.findLatestFileInRotatingLogFiles
  cases sys.glob (gcPath ++ str ".*") s with
  | error e => rfl
  | ok files =>
    have hmap (files : List GoString) :
        (files.zipIdx 2).mapM (fun file => (sys.lstat file.1 s).toOption) =
          files.mapM fun file => (sys.lstat file s).toOption := by
      have hcomp := List.mapM_map (m := Option) (f := Prod.fst)
        (g := fun file => (sys.lstat file s).toOption) (l := files.zipIdx 2)
      rw [List.zipIdx_map_fst] at hcomp
      exact hcomp.symm
    exact congrArg (Option.map _) (hmap _)

variable {sys gcPath} {moments : ℕ → σ}

theorem mem_found {file : GoString × FileInfo} :
    file ∈ found sys gcPath moments ↔
      ∃ k, (file.1, k) ∈ lookups sys gcPath moments ∧
        sys.lstat file.1 (moments k) = .ok file.2 := by
  rw [found, List.mem_filterMap]
  constructor
  · rintro ⟨⟨path, k⟩, hmem, hlookup⟩
    rw [lookup, Option.map_eq_some_iff] at hlookup
    obtain ⟨info, hinfo, rfl⟩ := hlookup
    cases hlstat : sys.lstat path (moments k) with
    | error e => simp [hlstat, Except.toOption] at hinfo
    | ok info' =>
      simp only [hlstat, Except.toOption, Option.some.injEq] at hinfo
      exact ⟨k, hmem, hinfo ▸ hlstat⟩
  · rintro ⟨k, hmem, hlstat⟩
    exact ⟨_, hmem, by simp [lookup, hlstat, Except.toOption]⟩

/-- A match that is gone is a panic. -/
theorem findLatest_of_gone (sorter : SortSlice) {file : GoString × ℕ}
    (hfile : file ∈ lookups sys gcPath moments) {e : OsError}
    (hgone : sys.lstat file.1 (moments file.2) = .error e) :
    findLatestFileInRotatingLogFiles sys gcPath sorter moments = none := by
  rw [lookups] at hfile
  rw [findLatestFileInRotatingLogFiles]
  cases hglob : sys.glob (gcPath ++ str ".*") (moments 0) with
  | error e => simp [hglob] at hfile
  | ok files =>
    rw [hglob] at hfile
    simp only
    rw [Fallible.mapM_of_exists hfile (by rw [hgone]; rfl)]
    rfl

/-- Where all stay, the first in the order of the times gives its name. -/
theorem findLatest_of_stays (sorter : SortSlice)
    (h : ∀ file ∈ lookups sys gcPath moments,
      ∃ info, sys.lstat file.1 (moments file.2) = .ok info) :
    findLatestFileInRotatingLogFiles sys gcPath sorter moments =
      some (match sorter.sort newer ((found sys gcPath moments).map Prod.snd) with
        | [] => gcPath
        | info :: _ => joinPath [dir gcPath, info.name]) := by
  have hinfos : (found sys gcPath moments).map Prod.snd =
      (lookups sys gcPath moments).filterMap fun file =>
        (sys.lstat file.1 (moments file.2)).toOption := by
    rw [found, List.map_filterMap]
    simp [lookup, Function.comp_def]
  rw [hinfos]
  rw [lookups] at h ⊢
  rw [findLatestFileInRotatingLogFiles]
  cases hglob : sys.glob (gcPath ++ str ".*") (moments 0) with
  | error e => simp
  | ok files =>
    rw [hglob] at h
    simp only
    rw [Fallible.mapM_of_forall, Option.map_some]
    intro file hfile
    obtain ⟨info, hinfo⟩ := h file hfile
    rw [hinfo]
    rfl

/-- The newest ones come first, in some order of the sort each of them. -/
theorem sort_head_newest {sorter : SortSlice} {files : List (GoString × FileInfo)}
    {info : FileInfo} {rest : List FileInfo}
    (h : sorter.sort newer (files.map Prod.snd) = info :: rest) :
    ∃ file, IsNewest files file ∧ file.2 = info := by
  obtain ⟨hmem, hleast⟩ := sorter.head_sort newer_order h
  obtain ⟨file, hfile, rfl⟩ := List.mem_map.mp hmem
  refine ⟨file, ⟨hfile, ?_⟩, rfl⟩
  intro g hg
  have hnot := hleast g.2 (List.mem_map_of_mem hg)
  rw [newer, decide_eq_false_iff_not] at hnot
  omega

theorem exists_sorter_of_newest {files : List (GoString × FileInfo)}
    {file : GoString × FileInfo} (h : IsNewest files file) :
    ∃ (sorter : SortSlice) (rest : List FileInfo),
      sorter.sort newer (files.map Prod.snd) = file.2 :: rest := by
  refine SortSlice.exists_head_eq newer_order (List.mem_map_of_mem h.1) ?_
  intro info hinfo
  obtain ⟨g, hg, rfl⟩ := List.mem_map.mp hinfo
  have hle := h.2 g hg
  rw [newer, decide_eq_false_iff_not]
  omega

theorem answers_of_steady (h : Steady sys gcPath moments) (sorter : SortSlice) :
    Answers sys gcPath moments (findLatestFileInRotatingLogFiles sys gcPath sorter moments) := by
  rw [findLatest_of_stays sorter h.stays]
  cases hsort : sorter.sort newer ((found sys gcPath moments).map Prod.snd) with
  | nil =>
    refine ⟨gcPath, rfl, Or.inl ⟨?_, rfl⟩⟩
    by_contra hne
    exact sorter.sort_ne_nil newer (fun hnil => hne (List.map_eq_nil_iff.mp hnil)) hsort
  | cons info rest =>
    obtain ⟨file, hnewest, rfl⟩ := sort_head_newest hsort
    obtain ⟨g, hg, hpath⟩ := h.beside file hnewest
    exact ⟨_, rfl, Or.inr ⟨g, hg, hpath⟩⟩

theorem stays_of_answers {sorter : SortSlice}
    (h : Answers sys gcPath moments
      (findLatestFileInRotatingLogFiles sys gcPath sorter moments)) :
    ∀ file ∈ lookups sys gcPath moments,
      ∃ info, sys.lstat file.1 (moments file.2) = .ok info := by
  intro file hfile
  cases hlstat : sys.lstat file.1 (moments file.2) with
  | ok info => exact ⟨info, rfl⟩
  | error e =>
    obtain ⟨path, hpath, -⟩ := h
    rw [findLatest_of_gone sorter hfile hlstat] at hpath
    cases hpath

theorem steady_of_answers
    (h : ∀ sorter, Answers sys gcPath moments
      (findLatestFileInRotatingLogFiles sys gcPath sorter moments)) :
    Steady sys gcPath moments := by
  have hstays := stays_of_answers (h SortSlice.stable)
  refine ⟨hstays, ?_⟩
  intro file hnewest
  obtain ⟨sorter, rest, hsort⟩ := exists_sorter_of_newest hnewest
  obtain ⟨path, hpath, hanswer⟩ := h sorter
  rw [findLatest_of_stays sorter hstays, hsort] at hpath
  obtain rfl := Option.some.inj hpath
  rcases hanswer with ⟨hnone, -⟩ | hanswer
  · exact absurd (hnone ▸ hnewest.1) List.not_mem_nil
  · exact hanswer

/-- The lookup answers, however equal times are sorted, exactly if every match stays until it has
been looked up and the newest ones lie beside `gcPath`. -/
theorem answers_iff_steady (sys : System σ) (gcPath : GoString) (moments : ℕ → σ) :
    (∀ sorter, Answers sys gcPath moments
      (findLatestFileInRotatingLogFiles sys gcPath sorter moments)) ↔
      Steady sys gcPath moments :=
  ⟨steady_of_answers, answers_of_steady⟩

/-- A log with no other one, that is renamed between the glob and its lookup. -/
def renamed : ℕ → Disk
  | 0 => ⟨⟨[(parse (str "gc.log.0"), ⟨some (str "x"), 1⟩)], List.nodup_singleton _⟩, 2⟩
  | _ => ⟨⟨[(parse (str "gc.log.1"), ⟨some (str "x"), 1⟩)], List.nodup_singleton _⟩, 2⟩

theorem not_answers_renamed :
    ¬ ∀ sorter, Answers (Disk.system Disk.listing) (str "gc.log") renamed
      (findLatestFileInRotatingLogFiles (Disk.system Disk.listing) (str "gc.log") sorter
        renamed) := by
  intro h
  have hlookups :
      lookups (Disk.system Disk.listing) (str "gc.log") renamed = [(str "gc.log.0", 2)] := rfl
  obtain ⟨info, hinfo⟩ := stays_of_answers (h SortSlice.stable) (str "gc.log.0", 2)
    (hlookups ▸ List.mem_singleton_self _)
  cases hinfo

/-! ## Matches in the directory of the log -/

theorem clean_beside {file : GoString} (hdir : upToSlash file = upToSlash gcPath)
    (hbase : base file = afterSlash file) :
    clean (joinPath [dir gcPath, base file]) = clean file := by
  have hslash : slash ∉ base file := hbase ▸ slash_not_mem_afterSlash file
  have hparse : parse (joinPath [dir gcPath, base file]) = parse file := by
    conv_rhs => rw [← upToSlash_append_afterSlash file, hdir, ← hbase]
    rw [parse_joinPath_dir gcPath hslash, parse_upToSlash_append gcPath hslash]
  rw [clean, clean, hparse]

/-- Where all matches lie in the directory of the log, what counts is that they stay. -/
theorem steady_iff_of_beside (hname : ∀ path s info, sys.lstat path s = .ok info →
      info.name = base path)
    (hbeside : ∀ file ∈ lookups sys gcPath moments,
      upToSlash file.1 = upToSlash gcPath ∧ base file.1 = afterSlash file.1) :
    Steady sys gcPath moments ↔ ∀ file ∈ lookups sys gcPath moments,
      ∃ info, sys.lstat file.1 (moments file.2) = .ok info := by
  constructor
  · exact Steady.stays
  · intro hstays
    refine ⟨hstays, ?_⟩
    intro file hnewest
    obtain ⟨k, hmem, hlstat⟩ := mem_found.mp hnewest.1
    obtain ⟨hdir, hbase⟩ := hbeside _ hmem
    refine ⟨file, hnewest, ?_⟩
    rw [hname _ _ _ hlstat]
    exact clean_beside hdir hbase

end YcAgent.Capture.GCMoving
