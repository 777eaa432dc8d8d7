import YcAgent.Base.Decimal
import YcAgent.Base.Fallible
import YcAgent.Base.Glob
import YcAgent.Base.RangeMap
import YcAgent.Capture.GCLog

/-!
# GC logs on a disk

A disk keeps files and directories under clean paths; no two paths lead to one file. It
answers the calls of `ProcessGCLogFile` as an operating system without docker does; the glob
package that lists it is a parameter.
-/
namespace YcAgent.Capture

open Go Go.FilePath

/-- A byte that a glob pattern or the tokens of a path give a meaning. -/
def IsSpecial (b : Byte) : Prop := b ∈ str "%*?[\x7b\\"

instance : DecidablePred IsSpecial := fun _ => inferInstanceAs (Decidable (_ ∈ _))

structure Node where
  /-- None for a directory. -/
  content : Option GoString
  modTime : Int

structure Disk where
  nodes : RangeMap FilePath Node
  now : Int

namespace Disk

def node? (d : Disk) (path : GoString) : Option Node := d.nodes.get? (parse path)

/-- What a file holds. -/
def content? (d : Disk) (path : GoString) : Option GoString := (d.node? path).bind Node.content

def IsDirectory (d : Disk) (rooted : Bool) (comps : List GoString) : Prop :=
  comps = [] ∨ ∃ e ∈ d.nodes.entries, e.1.rooted = rooted ∧ e.1.comps = comps ∧ e.2.content = none

instance (d : Disk) (rooted : Bool) (comps : List GoString) :
    Decidable (d.IsDirectory rooted comps) := inferInstanceAs (Decidable (_ ∨ _))

/-- The path is not that of a directory, and what it lies in is one. -/
def CanCreate (d : Disk) (p : FilePath) : Prop :=
  ¬ d.IsDirectory p.rooted p.comps ∧ d.IsDirectory p.rooted p.comps.dropLast

instance (d : Disk) (p : FilePath) : Decidable (d.CanCreate p) :=
  inferInstanceAs (Decidable (_ ∧ _))

def info (p : FilePath) (n : Node) : FileInfo := ⟨base p.render, n.modTime, n.content.isNone⟩

def writeFile (d : Disk) (p : FilePath) (content : GoString) : Disk :=
  { d with nodes := d.nodes.set p ⟨some content, d.now⟩ }

/-- The files whose paths match, with their nodes. -/
def matching (d : Disk) (pattern : GoString) : List (FilePath × Node) :=
  d.nodes.entries.filter fun e => e.2.content.isSome && globMatch (clean pattern) e.1.render

def errNotExist : OsError := ⟨str "no such file or directory", true⟩
def errIsDirectory : OsError := ⟨str "is a directory", false⟩
def errNotDirectory : OsError := ⟨str "not a directory", false⟩
def errNoSpace : OsError := ⟨str "no space left on device", false⟩
def errNoDocker : OsError := ⟨str "docker: executable file not found in $PATH", false⟩

def stat (path : GoString) (d : Disk) : Except OsError FileInfo :=
  match d.node? path with
  | none => .error errNotExist
  | some n => .ok (info (parse path) n)

def openFile (path : GoString) (d : Disk) : Option OsError :=
  if (parse path).comps = [] ∨ (d.node? path).isSome then none else some errNotExist

def readDirNames (path : GoString) (d : Disk) : Except OsError (List GoString) :=
  let p := parse path
  if d.IsDirectory p.rooted p.comps then
    .ok (d.nodes.entries.filterMap fun e =>
      if e.1.rooted = p.rooted ∧ e.1.comps ≠ [] ∧ e.1.comps.dropLast = p.comps then
        e.1.comps.getLast?
      else none)
  else .error errNotDirectory

def create (path : GoString) (d : Disk) : Except OsError Disk :=
  let p := parse path
  if d.CanCreate p then .ok (d.writeFile p [])
  else .error (if d.IsDirectory p.rooted p.comps then errIsDirectory else errNotExist)

/-- A file copied to its own end grows until there is no space. -/
def appendFrom (out file : GoString) (d : Disk) : Option OsError × Disk :=
  match d.content? file with
  | none => (some errIsDirectory, d)
  | some text =>
    if parse file = parse out then (if text = [] then none else some errNoSpace, d)
    else (none, d.writeFile (parse out) ((d.content? out).getD [] ++ text))

/-- A glob package. Of a text followed by a star it finds the files that match, in some order. -/
structure GlobPackage where
  find : GoString → Disk → Except OsError (List GoString)
  found : ∀ (text : GoString) (d : Disk), (∀ b ∈ text, ¬ IsSpecial b) →
    ∃ files, find (text ++ [star]) d = .ok files ∧
      files.Perm ((d.matching (text ++ [star])).map fun e => e.1.render)

/-- The one that finds them in the order of the disk. -/
def listing : GlobPackage where
  find pattern d := .ok ((d.matching pattern).map fun e => e.1.render)
  found _ _ _ := ⟨_, rfl, .refl _⟩

/-- The operating system over a disk. -/
def system (pkg : GlobPackage) : System Disk where
  linux := true
  tempDir := str "/tmp"
  glob := pkg.find
  stat := stat
  lstat := stat
  openFile := openFile
  readDirNames := readDirNames
  create := create
  appendFrom := appendFrom
  dockerCopy _ _ d := (some errNoDocker, d)
  dockerExecute _ _ := .error errNoDocker

end Disk

/-! ## A rotation -/

def rotated (gcPath : GoString) (i : Nat) : GoString := gcPath ++ str "." ++ decimal i
def rotatedCurrent (gcPath : GoString) (i : Nat) : GoString := rotated gcPath i ++ str ".current"

/-- The greatest index below `p`, or the greatest of all when none is smaller. -/
def IsPrevious (indices : Nat → Prop) (p k : Nat) : Prop :=
  indices k ∧ ((k < p ∧ ∀ i, indices i → i < p → i ≤ k) ∨ (p < k ∧ ∀ i, indices i → p < i ∧ i ≤ k))

/-- A log that is rotated: one current file, and the log in front of it. -/
structure Rotated (d : Disk) (gcPath prev cur : GoString) : Prop where
  noSpecial : ∀ b ∈ gcPath, ¬ IsSpecial b
  absent : d.node? gcPath = none
  logs : ∃ p k, (∀ q, (d.content? (rotatedCurrent gcPath q)).isSome ↔ q = p) ∧
    d.content? (rotatedCurrent gcPath p) = some cur ∧
    IsPrevious (fun i => i ≠ p ∧ (d.content? (rotated gcPath i)).isSome) p k ∧
    d.content? (rotated gcPath k) = some prev

/-- A collection that leaves a text in the output file. -/
def Leaves (run : Option (Collected Disk)) (out text : GoString) : Prop :=
  ∃ c, run = some c ∧ c.err = none ∧ c.gc = some out ∧ c.state.content? out = some text

/-- What the glob package finds behind the log's name. -/
def rotatedInfos (pkg : Disk.GlobPackage) (gcPath : GoString) (d : Disk) : List FileInfo :=
  match pkg.find (gcPath ++ str ".*") d with
  | .error _ => []
  | .ok files => files.filterMap fun file => (Disk.stat file d).toOption

/-- The path of the newest file behind the log's name. -/
def newestRotated (pkg : Disk.GlobPackage) (sorter : SortSlice) (gcPath : GoString) (d : Disk) :
    Option GoString :=
  (sorter.sort newer (rotatedInfos pkg gcPath d)).head?.map
    fun info => joinPath [dir gcPath, info.name]

/-- The newest file alone has the text; as the output itself it has been emptied. -/
def NewestHolds (pkg : Disk.GlobPackage) (sorter : SortSlice) (gcPath out : GoString) (d : Disk)
    (text : GoString) : Prop :=
  ∃ path, newestRotated pkg sorter gcPath d = some path ∧
    if parse path = parse out then text = [] else d.content? path = some text

/-! ## The files behind the name of the log -/

theorem not_isMeta {b : Byte} (h : ¬ IsSpecial b) : ¬ IsMeta b := by
  intro hmeta
  rcases hmeta with rfl | rfl
  · exact h (by decide)
  · exact h (by decide)

theorem not_isMeta_inFront {s : GoString} (hs : ∀ b ∈ s, ¬ IsSpecial b) :
    ∀ b ∈ (parse s).inFront, ¬ IsMeta b := by
  intro b hb
  rcases mem_of_mem_inFront hb with rfl | rfl | hmem
  · decide
  · decide
  · exact not_isMeta (hs b hmem)

theorem mem_matching {d : Disk} {pattern : GoString} {e : FilePath × Node} :
    e ∈ d.matching pattern ↔
      e ∈ d.nodes.entries ∧ e.2.content.isSome ∧ Matches (clean pattern) e.1.render := by
  simp [Disk.matching, Matches]

/-- The pattern of the rotated files is the directory, the name and a star. -/
theorem clean_pattern (gcPath : GoString) :
    clean (gcPath ++ str ".*") =
      (parse (upToSlash gcPath)).inFront ++ (afterSlash gcPath ++ [dot, star]) := by
  have hname : slash ∉ afterSlash gcPath ++ [dot, star] :=
    List.not_mem_append (slash_not_mem_afterSlash gcPath) (by decide)
  have hstar : star ∈ afterSlash gcPath ++ [dot, star] := by simp
  have hplain : Plain (afterSlash gcPath ++ [dot, star]) := Plain.of_mem hstar (by decide)
  have hsplit : gcPath ++ str ".*" = upToSlash gcPath ++ (afterSlash gcPath ++ [dot, star]) := by
    rw [← List.append_assoc, upToSlash_append_afterSlash]
    rfl
  rw [clean, hsplit, parse_upToSlash_append gcPath hname, render_child _ hname hplain]

/-- A file that matches is a child of the directory of the log, under its own name. -/
theorem child_of_mem_matching {d : Disk} {gcPath : GoString} (hgc : ∀ b ∈ gcPath, ¬ IsSpecial b)
    {e : FilePath × Node} (he : e ∈ d.matching (gcPath ++ str ".*")) :
    ∃ name, ∃ hname : slash ∉ name,
      e.1 = (parse (upToSlash gcPath)).child name hname ∧ base e.1.render = name := by
  obtain ⟨_, _, hmatch⟩ := mem_matching.mp he
  have hbytes := upToSlash_append_afterSlash gcPath
  have hfront : ∀ b ∈ (parse (upToSlash gcPath)).inFront ++ (afterSlash gcPath ++ [dot]),
      ¬ IsMeta b := by
    intro b hb
    rcases List.mem_append.mp hb with hb | hb
    · refine not_isMeta_inFront (fun b hb => ?_) b hb
      exact hgc b (hbytes ▸ List.mem_append_left _ hb)
    · rcases List.mem_append.mp hb with hb | hb
      · exact not_isMeta (hgc b (hbytes ▸ List.mem_append_right _ hb))
      · rw [List.mem_singleton.mp hb]
        decide
  have hpattern : clean (gcPath ++ str ".*") =
      ((parse (upToSlash gcPath)).inFront ++ (afterSlash gcPath ++ [dot])) ++ [star] := by
    rw [clean_pattern]
    simp
  rw [hpattern, matches_append hfront] at hmatch
  obtain ⟨t, hrender, hstar⟩ := hmatch
  obtain ⟨taken, rest, rfl, hno, hnil⟩ := matches_star.mp hstar
  obtain rfl := matches_nil.mp hnil
  have hdot : slash ∉ afterSlash gcPath ++ [dot] :=
    List.not_mem_append (slash_not_mem_afterSlash gcPath) (by decide)
  have hname : slash ∉ afterSlash gcPath ++ [dot] ++ taken := List.not_mem_append hdot hno
  have htext : e.1.render =
      (parse (upToSlash gcPath)).inFront ++ (afterSlash gcPath ++ [dot] ++ taken) := by
    rw [hrender]
    simp
  refine ⟨afterSlash gcPath ++ [dot] ++ taken, hname, ?_, ?_⟩
  · rw [← parse_render e.1, htext, parse_inFront_append _ hname]
  · rw [htext, base_inFront_append _ hname (by simp)]

/-- Its name, joined to the directory again, leads back to it. -/
theorem parse_joinPath_of_mem_matching {d : Disk} {gcPath : GoString}
    (hgc : ∀ b ∈ gcPath, ¬ IsSpecial b) {e : FilePath × Node}
    (he : e ∈ d.matching (gcPath ++ str ".*")) :
    parse (joinPath [dir gcPath, base e.1.render]) = e.1 := by
  obtain ⟨name, hname, hchild, hbase⟩ := child_of_mem_matching hgc he
  rw [hbase, parse_joinPath_dir gcPath hname, hchild]

theorem mem_matching_of_content? {d : Disk} {gcPath rest text : GoString} (hslash : slash ∉ rest)
    (hplain : Plain (afterSlash gcPath ++ dot :: rest))
    (htext : d.content? (gcPath ++ dot :: rest) = some text) :
    ∃ e, e ∈ d.matching (gcPath ++ str ".*") := by
  have hdot : slash ∉ dot :: rest := List.not_mem_cons_of_ne_of_not_mem (by decide) hslash
  have hname : slash ∉ afterSlash gcPath ++ dot :: rest :=
    List.not_mem_append (slash_not_mem_afterSlash gcPath) hdot
  have hparse : parse (gcPath ++ dot :: rest) =
      (parse (upToSlash gcPath)).child (afterSlash gcPath ++ dot :: rest) hname := by
    rw [← parse_upToSlash_append gcPath hname, ← List.append_assoc, upToSlash_append_afterSlash]
  obtain ⟨node, hnode, hcontent⟩ := Option.bind_eq_some_iff.mp htext
  refine ⟨(parse (gcPath ++ dot :: rest), node), mem_matching.mpr ⟨?_, ?_, ?_⟩⟩
  · exact (RangeMap.get?_eq_some_iff d.nodes).mp hnode
  · rw [hcontent]
    rfl
  · have hstar : Matches [dot, star] (dot :: rest) := by
      refine (matches_literal (by decide)).mpr ⟨rest, rfl, ?_⟩
      exact matches_star.mpr ⟨rest, [], by simp, hslash, matches_nil.mpr rfl⟩
    show Matches (clean (gcPath ++ str ".*")) (parse (gcPath ++ dot :: rest)).render
    rw [clean_pattern, hparse, render_child _ hname hplain]
    exact matches_append_self _ (matches_append_self _ hstar)

/-- So there is something to pick: the current log is among the files. -/
theorem Rotated.matching_ne_nil {d : Disk} {gcPath prev cur : GoString}
    (h : Rotated d gcPath prev cur) : d.matching (gcPath ++ str ".*") ≠ [] := by
  obtain ⟨p, k, _, hcur, _⟩ := h.logs
  have hrest : rotatedCurrent gcPath p = gcPath ++ dot :: (decimal p ++ str ".current") := by
    have hdot : str "." = [dot] := rfl
    simp [rotatedCurrent, rotated, hdot]
  have hdecimal : slash ∉ decimal p :=
    fun hmem => absurd (isDigit_of_mem_decimal _ hmem) (by decide)
  have hslash : slash ∉ decimal p ++ str ".current" := List.not_mem_append hdecimal (by decide)
  have hlast : (99 : Byte) ∈ afterSlash gcPath ++ dot :: (decimal p ++ str ".current") := by
    refine List.mem_append_right _ (List.mem_cons_of_mem _ (List.mem_append_right _ ?_))
    decide
  have hplain := Plain.of_mem hlast (by decide)
  rw [hrest] at hcur
  obtain ⟨e, he⟩ := mem_matching_of_content? hslash hplain hcur
  exact List.ne_nil_of_mem he

/-! ## The newest file is copied -/

variable {pkg : Disk.GlobPackage} {sorter : SortSlice}

theorem stat_of_mem_entries {d : Disk} {e : FilePath × Node} (he : e ∈ d.nodes.entries) :
    Disk.stat e.1.render d = .ok (Disk.info e.1 e.2) := by
  have hnode : d.node? e.1.render = some e.2 := by
    rw [Disk.node?, parse_render, RangeMap.get?_eq_some_iff]
    exact he
  rw [Disk.stat, hnode, parse_render]

/-- The glob package finds the files that match. -/
theorem exists_found (pkg : Disk.GlobPackage) {gcPath : GoString}
    (hgc : ∀ b ∈ gcPath, ¬ IsSpecial b) (d : Disk) :
    ∃ files, pkg.find (gcPath ++ str ".*") d = .ok files ∧
      files.Perm ((d.matching (gcPath ++ str ".*")).map fun e => e.1.render) := by
  have hsplit : gcPath ++ str ".*" = gcPath ++ [dot] ++ [star] := by
    rw [List.append_assoc]
    rfl
  have hplain : ∀ b ∈ gcPath ++ [dot], ¬ IsSpecial b := by
    intro b hb
    rcases List.mem_append.mp hb with hb | hb
    · exact hgc b hb
    · rw [List.mem_singleton.mp hb]
      decide
  rw [hsplit]
  exact pkg.found _ d hplain

theorem mem_rotatedInfos {gcPath : GoString} (hgc : ∀ b ∈ gcPath, ¬ IsSpecial b) {d : Disk}
    {info : FileInfo} : info ∈ rotatedInfos pkg gcPath d ↔
      ∃ e ∈ d.matching (gcPath ++ str ".*"), Disk.info e.1 e.2 = info := by
  obtain ⟨files, hfind, hperm⟩ := exists_found pkg hgc d
  have hstat : ∀ e ∈ d.matching (gcPath ++ str ".*"),
      (Disk.stat e.1.render d).toOption = some (Disk.info e.1 e.2) := fun e he =>
    congrArg Except.toOption (stat_of_mem_entries (mem_matching.mp he).1)
  simp only [rotatedInfos, hfind, List.mem_filterMap, hperm.mem_iff, List.mem_map]
  constructor
  · rintro ⟨file, ⟨e, he, rfl⟩, hinfo⟩
    rw [hstat e he] at hinfo
    exact ⟨e, he, Option.some.inj hinfo⟩
  · rintro ⟨e, he, rfl⟩
    exact ⟨_, ⟨e, he, rfl⟩, hstat e he⟩

theorem rotatedInfos_ne_nil (pkg : Disk.GlobPackage) {gcPath : GoString}
    (hgc : ∀ b ∈ gcPath, ¬ IsSpecial b) {d : Disk} (hne : d.matching (gcPath ++ str ".*") ≠ []) :
    rotatedInfos pkg gcPath d ≠ [] := by
  obtain ⟨e, he⟩ := List.exists_mem_of_ne_nil _ hne
  exact List.ne_nil_of_mem ((mem_rotatedInfos hgc).mpr ⟨e, he, rfl⟩)

theorem findLatest_eq_newestRotated {d : Disk} {gcPath : GoString}
    (hgc : ∀ b ∈ gcPath, ¬ IsSpecial b) (habsent : d.node? gcPath = none)
    (hne : d.matching (gcPath ++ str ".*") ≠ []) :
    findLatestFileInRotatingLogFiles (Disk.system pkg) sorter gcPath d =
      newestRotated pkg sorter gcPath d := by
  have hstat : (Disk.system pkg).stat gcPath d = .error Disk.errNotExist := by
    show Disk.stat gcPath d = .error Disk.errNotExist
    rw [Disk.stat, habsent]
  have hmissing : fileExists (Disk.system pkg) gcPath d = false := by
    rw [fileExists, hstat]
  obtain ⟨files, hfind, hperm⟩ := exists_found pkg hgc d
  have hthere : ∀ file ∈ files, ((Disk.stat file d).toOption).isSome := by
    intro file hfile
    obtain ⟨e, he, rfl⟩ := List.mem_map.mp (hperm.mem_iff.mp hfile)
    rw [stat_of_mem_entries (mem_matching.mp he).1]
    rfl
  have hinfos : rotatedInfos pkg gcPath d =
      files.filterMap fun file => (Disk.stat file d).toOption := by
    simp only [rotatedInfos, hfind]
  have hmapM : (files.mapM fun file => ((Disk.system pkg).lstat file d).toOption) =
      some (rotatedInfos pkg gcPath d) := by
    rw [hinfos]
    exact Fallible.mapM_of_forall hthere
  rw [findLatest_of_infos hfind hmissing hmapM, newestRotated]
  cases hsorted : sorter.sort newer (rotatedInfos pkg gcPath d) with
  | nil => exact absurd hsorted (sorter.sort_ne_nil newer (rotatedInfos_ne_nil pkg hgc hne))
  | cons info rest => rfl

theorem exists_newestRotated (pkg : Disk.GlobPackage) (sorter : SortSlice) {d : Disk}
    {gcPath : GoString} (hgc : ∀ b ∈ gcPath, ¬ IsSpecial b)
    (hne : d.matching (gcPath ++ str ".*") ≠ []) :
    ∃ path, newestRotated pkg sorter gcPath d = some path := by
  unfold newestRotated
  cases hsorted : sorter.sort newer (rotatedInfos pkg gcPath d) with
  | nil => exact absurd hsorted (sorter.sort_ne_nil newer (rotatedInfos_ne_nil pkg hgc hne))
  | cons info rest => exact ⟨_, rfl⟩

/-- The path that is picked is that of a file. -/
theorem content?_newestRotated {d : Disk} {gcPath path : GoString}
    (hgc : ∀ b ∈ gcPath, ¬ IsSpecial b) (h : newestRotated pkg sorter gcPath d = some path) :
    ∃ text, d.content? path = some text := by
  obtain ⟨info, hhead, rfl⟩ := Option.map_eq_some_iff.mp h
  have hmem := (sorter.mem_sort newer _ info).mp (List.mem_of_mem_head? hhead)
  obtain ⟨e, he, rfl⟩ := (mem_rotatedInfos hgc).mp hmem
  obtain ⟨hentry, hfile, _⟩ := mem_matching.mp he
  obtain ⟨text, htext⟩ := Option.isSome_iff_exists.mp hfile
  refine ⟨text, ?_⟩
  have hnode : d.node? (joinPath [dir gcPath, (Disk.info e.1 e.2).name]) = some e.2 := by
    rw [Disk.node?, Disk.info, parse_joinPath_of_mem_matching hgc he, RangeMap.get?_eq_some_iff]
    exact hentry
  rw [Disk.content?, hnode]
  exact htext

theorem content?_writeFile (d : Disk) (p : FilePath) (text path : GoString) :
    (d.writeFile p text).content? path = if parse path = p then some text else d.content? path := by
  unfold Disk.content? Disk.node? Disk.writeFile
  simp only [RangeMap.get?_set]
  split
  · rfl
  · rfl

theorem openFile_of_content? {d : Disk} {path text : GoString} (h : d.content? path = some text) :
    Disk.openFile path d = none := by
  obtain ⟨node, hnode, _⟩ := Option.bind_eq_some_iff.mp h
  rw [Disk.openFile, if_pos (Or.inr (by rw [hnode]; rfl))]

theorem appendFrom_of_content? {d : Disk} {out file text : GoString}
    (h : d.content? file = some text) (hself : parse file = parse out → text = []) :
    (Disk.appendFrom out file d).1 = none ∧
      (Disk.appendFrom out file d).2.content? out =
        if parse file = parse out then d.content? out
        else some ((d.content? out).getD [] ++ text) := by
  unfold Disk.appendFrom
  rw [h]
  by_cases hsame : parse file = parse out
  · simp [hsame, hself hsame]
  · simp [hsame, content?_writeFile]

/-- The first attempt on a file that is there ends the collection. -/
theorem firstAttempt_of_content? (pkg : Disk.GlobPackage) {d : Disk} {path text : GoString}
    (hpath : d.content? path = some text) (out : GoString) (pid : Int) :
    if d.CanCreate (parse out) then
      ∃ d', firstAttempt (Disk.system pkg) path out [] pid d = .returned ⟨some out, none, d'⟩ ∧
        d'.content? out = some (if parse path = parse out then [] else text)
    else
      ∃ err, firstAttempt (Disk.system pkg) path out [] pid d = .returned ⟨none, some err, d⟩ := by
  split
  · rename_i hcan
    have hcreate : Disk.create out d = .ok (d.writeFile (parse out) []) := by
      rw [Disk.create, if_pos hcan]
    have hread : (d.writeFile (parse out) []).content? path =
        some (if parse path = parse out then [] else text) := by
      rw [content?_writeFile]
      split
      · rfl
      · exact hpath
    have hout : (d.writeFile (parse out) []).content? out = some [] := by
      rw [content?_writeFile, if_pos rfl]
    have hcopy : copyFile (Disk.system pkg) out path pid (d.writeFile (parse out) []) =
        Disk.appendFrom out path (d.writeFile (parse out) []) :=
      copyFile_of_open (openFile_of_content? hread)
    obtain ⟨herr, hcontent⟩ := appendFrom_of_content? hread (fun h => if_pos h)
    refine ⟨_, firstAttempt_of_copied hcreate (by rw [hcopy]; exact herr), ?_⟩
    rw [hcopy, hcontent, hout]
    split
    · rfl
    · rfl
  · rename_i hcan
    have hcreate : Disk.create out d = .error (if d.IsDirectory (parse out).rooted (parse out).comps
        then Disk.errIsDirectory else Disk.errNotExist) := by
      rw [Disk.create, if_neg hcan]
    exact ⟨_, firstAttempt_of_create_error hcreate⟩

/-- Whatever files there are, the output gets the newest of them. -/
theorem leaves_iff_newestHolds (pkg : Disk.GlobPackage) (compile : Compile) (sorter : SortSlice)
    {d : Disk} {gcPath : GoString} (hgc : ∀ b ∈ gcPath, ¬ IsSpecial b)
    (habsent : d.node? gcPath = none)
    (hfiles : d.matching (gcPath ++ str ".*") ≠ []) (out : GoString) (pid : Int)
    (joined : GoString) :
    Leaves (processGCLogFile (Disk.system pkg) compile sorter gcPath out [] pid d) out joined ↔
      gcPath ≠ [] ∧ d.CanCreate (parse out) ∧ NewestHolds pkg sorter gcPath out d joined := by
  by_cases hne : gcPath = []
  · subst hne
    simp [Leaves, processGCLogFile]
  have hplain : (37 : Byte) ∉ gcPath := fun hmem => hgc 37 hmem (by decide)
  have hlatest : findLatestFileInRotatingLogFiles (Disk.system pkg) sorter
      (resolveTokens (Disk.system pkg) sorter gcPath pid d) d =
        newestRotated pkg sorter gcPath d := by
    rw [resolveTokens_of_not_mem hplain]
    exact findLatest_eq_newestRotated hgc habsent hfiles
  obtain ⟨path, hpath⟩ := exists_newestRotated pkg sorter hgc hfiles
  obtain ⟨text, htext⟩ := content?_newestRotated hgc hpath
  have hfirst := firstAttempt_of_content? pkg htext out pid
  have hholds : NewestHolds pkg sorter gcPath out d joined ↔
      (if parse path = parse out then [] else text) = joined := by
    unfold NewestHolds
    rw [hpath]
    by_cases hsame : parse path = parse out
    · simp [hsame, eq_comm]
    · simp [hsame, htext]
  rw [hholds, Leaves, processGCLogFile_of_path hne (hlatest.trans hpath)]
  by_cases hcan : d.CanCreate (parse out)
  · rw [if_pos hcan] at hfirst
    obtain ⟨d', hreturned, hcontent⟩ := hfirst
    rw [hreturned]
    constructor
    · intro hleaves
      obtain ⟨c, hc, _, _, htext'⟩ := hleaves
      obtain rfl := Option.some.inj hc
      exact ⟨hne, hcan, Option.some.inj (hcontent.symm.trans htext')⟩
    · intro hjoined
      exact ⟨_, rfl, rfl, rfl, by rw [hcontent, hjoined.2.2]⟩
  · rw [if_neg hcan] at hfirst
    obtain ⟨err, hreturned⟩ := hfirst
    rw [hreturned]
    constructor
    · intro hleaves
      obtain ⟨c, hc, herr, _⟩ := hleaves
      obtain rfl := Option.some.inj hc
      cases herr
    · intro hjoined
      exact absurd hjoined.2.1 hcan

/-- The joined text comes out exactly when the newest file alone has it. -/
theorem processGCLogFile_joins_iff (pkg : Disk.GlobPackage) (compile : Compile)
    (sorter : SortSlice) {d : Disk} {gcPath prev cur : GoString} (h : Rotated d gcPath prev cur)
    (out : GoString) (pid : Int) :
    Leaves (processGCLogFile (Disk.system pkg) compile sorter gcPath out [] pid d) out
        (prev ++ cur) ↔
      gcPath ≠ [] ∧ d.CanCreate (parse out) ∧ NewestHolds pkg sorter gcPath out d (prev ++ cur) :=
  leaves_iff_newestHolds pkg compile sorter h.noSpecial h.absent h.matching_ne_nil out pid
    (prev ++ cur)

/-! ## A current log behind one other -/

/-- A regular expression package whose expressions find nothing. -/
def findsNothing : Compile := fun _ => some fun _ => []

/-- The current log is the newer one. -/
def twoLogs (prev cur : GoString) : Disk where
  nodes := ⟨[(parse (str "gc.log.0.current"), ⟨some cur, 2⟩),
    (parse (str "gc.log.1"), ⟨some prev, 1⟩)], by
    show [parse (str "gc.log.0.current"), parse (str "gc.log.1")].Nodup
    decide⟩
  now := 3

theorem parse_eq_of_content? {d : Disk} {path text : GoString} (h : d.content? path = some text) :
    ∃ e ∈ d.nodes.entries, e.1 = parse path := by
  obtain ⟨node, hnode, _⟩ := Option.bind_eq_some_iff.mp h
  exact ⟨_, (RangeMap.get?_eq_some_iff d.nodes).mp hnode, rfl⟩

theorem comps_rotated {i : Nat} {suf : GoString} (hsuf : slash ∉ suf) :
    (parse (rotated (str "gc.log") i ++ suf)).comps = [rotated (str "gc.log") i ++ suf] := by
  have hfront : ∀ b ∈ rotated (str "gc.log") i, b ≠ slash := by
    intro b hb
    rcases List.mem_append.mp hb with hb | hb
    · exact (by decide : ∀ b ∈ str "gc.log" ++ str ".", b ≠ slash) b hb
    · intro h
      exact absurd (h ▸ isDigit_of_mem_decimal b hb) (by decide)
  refine comps_parse ?_ ?_
  · intro h
    rcases List.mem_append.mp h with h | h
    · exact hfront slash h rfl
    · exact hsuf h
  · have hmem : (103 : Byte) ∈ rotated (str "gc.log") i ++ suf :=
      List.mem_append_left _ (List.mem_append_left _ (List.mem_append_left _ (by decide)))
    exact Plain.of_mem hmem (by decide)

theorem rotated_injective {gcPath suf : GoString} {i j : Nat}
    (h : rotated gcPath i ++ suf = rotated gcPath j ++ suf) : i = j :=
  decimal_injective (List.append_cancel_left (List.append_cancel_right h))

/-- The files of the two logs are those of their names. -/
theorem name_of_content? {prev cur text : GoString} {i : Nat} {suf : GoString} (hsuf : slash ∉ suf)
    (h : (twoLogs prev cur).content? (rotated (str "gc.log") i ++ suf) = some text) :
    rotated (str "gc.log") i ++ suf = str "gc.log.0.current" ∨
      rotated (str "gc.log") i ++ suf = str "gc.log.1" := by
  obtain ⟨e, he, hparse⟩ := parse_eq_of_content? h
  have hcomps := comps_rotated hsuf (i := i)
  rw [← hparse] at hcomps
  rcases List.mem_cons.mp he with rfl | he
  · exact Or.inl (List.head_eq_of_cons_eq hcomps).symm
  · obtain rfl := List.mem_singleton.mp he
    exact Or.inr (List.head_eq_of_cons_eq hcomps).symm

theorem rotated_twoLogs (prev cur : GoString) :
    Rotated (twoLogs prev cur) (str "gc.log") prev cur where
  noSpecial := by decide
  absent := rfl
  logs := by
    have hcurrent : ∀ q, ((twoLogs prev cur).content? (rotatedCurrent (str "gc.log") q)).isSome ↔
        q = 0 := by
      intro q
      constructor
      · intro h
        obtain ⟨text, htext⟩ := Option.isSome_iff_exists.mp h
        rcases name_of_content? (by decide) htext with hname | hname
        · exact rotated_injective (j := 0) hname
        · have hlast := congrArg List.getLast? hname
          rw [List.getLast?_append] at hlast
          exact absurd (Option.some.inj (hlast : some (116 : Byte) = some 49)) (by decide)
      · intro hq
        rw [hq]
        rfl
    have hindices : ∀ i, i ≠ 0 ∧ ((twoLogs prev cur).content? (rotated (str "gc.log") i)).isSome →
        i = 1 := by
      intro i hi
      obtain ⟨text, htext⟩ := Option.isSome_iff_exists.mp hi.2
      rw [← List.append_nil (rotated _ _)] at htext
      rcases name_of_content? List.not_mem_nil htext with hname | hname
      · rw [List.append_nil] at hname
        have hdigits : decimal i = str "0.current" := List.append_cancel_left hname
        have hdigit := isDigit_of_mem_decimal (n := i) 116 (by rw [hdigits]; decide)
        exact absurd hdigit (by decide)
      · exact rotated_injective (j := 1) hname
    refine ⟨0, 1, hcurrent, rfl, ⟨⟨by decide, rfl⟩, Or.inr ⟨by decide, ?_⟩⟩, rfl⟩
    intro i hi
    obtain rfl := hindices i hi
    decide

theorem newer_order : StrictOrder newer where
  trans := by
    intro a b c hab hbc
    unfold newer at hab hbc ⊢
    simp only [decide_eq_false_iff_not] at hab hbc ⊢
    omega
  total := by
    intro a b
    unfold newer
    simp only [decide_eq_false_iff_not]
    omega

/-- The current log is picked, being the newer one. -/
theorem newestRotated_twoLogs (sorter : SortSlice) (prev cur : GoString) :
    newestRotated Disk.listing sorter (str "gc.log") (twoLogs prev cur) =
      some (str "gc.log.0.current") := by
  have hinfos : rotatedInfos Disk.listing (str "gc.log") (twoLogs prev cur) =
      [⟨str "gc.log.0.current", 2, false⟩, ⟨str "gc.log.1", 1, false⟩] := rfl
  unfold newestRotated
  rw [hinfos]
  cases hsorted : sorter.sort newer
      [⟨str "gc.log.0.current", 2, false⟩, ⟨str "gc.log.1", 1, false⟩] with
  | nil => exact absurd hsorted (sorter.sort_ne_nil newer (List.cons_ne_nil _ _))
  | cons info rest =>
    obtain ⟨hmem, hleast⟩ := sorter.head_sort newer_order hsorted
    rcases List.mem_cons.mp hmem with rfl | hmem
    · rfl
    · obtain rfl := List.mem_singleton.mp hmem
      exact absurd (hleast _ List.mem_cons_self) (by decide)

/-- The rotation of the tests: the current log comes out, and the one in front of it does not. -/
theorem previous_log_is_not_joined :
    Rotated (twoLogs (str "test\n") (str "test")) (str "gc.log") (str "test\n") (str "test") ∧
      ¬ Leaves (processGCLogFile (Disk.system Disk.listing) findsNothing SortSlice.stable
        (str "gc.log") (str "gc.7.log") [] 7 (twoLogs (str "test\n") (str "test"))) (str "gc.7.log")
        (str "test\n" ++ str "test") := by
  have h := rotated_twoLogs (str "test\n") (str "test")
  refine ⟨h, ?_⟩
  rw [leaves_iff_newestHolds Disk.listing findsNothing SortSlice.stable h.noSpecial h.absent
    h.matching_ne_nil]
  intro hleaves
  obtain ⟨_, _, path, hpath, hholds⟩ := hleaves
  rw [newestRotated_twoLogs] at hpath
  obtain rfl := Option.some.inj hpath
  revert hholds
  decide

/-- With nothing in the log in front, the newest file is all there is to join. -/
theorem empty_previous_log_is_joined :
    Leaves (processGCLogFile (Disk.system Disk.listing) findsNothing SortSlice.stable
      (str "gc.log") (str "gc.7.log") [] 7 (twoLogs [] (str "test"))) (str "gc.7.log")
        ([] ++ str "test") := by
  refine (processGCLogFile_joins_iff Disk.listing findsNothing SortSlice.stable
    (rotated_twoLogs [] (str "test")) (str "gc.7.log") 7).mpr ⟨by decide, by decide, ?_⟩
  exact ⟨_, newestRotated_twoLogs _ _ _, by decide⟩

end YcAgent.Capture
