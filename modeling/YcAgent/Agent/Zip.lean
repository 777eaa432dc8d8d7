import YcAgent.Base.FilePath
import Mathlib.Data.List.Nodup

/-!
# The archive of a capture

`ZipFolder` walks the folder of a capture and writes each file that it comes to into an archive
beside it. The walk goes into every directory, but the name of an entry is made of the base
names of the folder and of the file alone.

A file is anything that is no directory, since that is all the walk asks for. What happens
outside, and the error that the deferred `Close` of the archive drops, is a parameter.
-/
namespace YcAgent.Ondemand.Zip

open Go Go.FilePath

/-- What stands at a path that is no directory: whether it is a regular file, the error of
opening it, what it holds and the error of reading it. -/
structure FileNode where
  regular : Bool
  opens : Option GoString
  content : GoString
  read : Option GoString

mutual

/-- A file, or a directory with the error of listing it. -/
inductive Tree where
  | file (node : FileNode)
  | dir (readDirNames : Option GoString) (children : Forest)

/-- The names of a directory, in the order of the walk. -/
inductive Forest where
  | nil
  | cons (name : GoString) (tree : Tree) (rest : Forest)

end

/-- An entry of an archive: its name and what it holds. -/
abbrev Entry := GoString × GoString

/-- How the outside steps of writing the archive end. -/
structure ZipWorld where
  createFile : Option GoString
  create : GoString → Option GoString
  close : Option GoString

section Walk

variable (w : ZipWorld) (folderBaseName : GoString)

/-- The function `walker` on what is no directory. -/
def walker (filePath : GoString) (node : FileNode) (entries : List Entry) :
    Except GoString (List Entry) :=
  match node.opens with
  | some e => .error e
  | none =>
    let fileBaseName := base filePath
    let zipFileName := joinPath [folderBaseName, fileBaseName]
    match w.create zipFileName with
    | some e => .error e
    | none =>
      match node.read with
      | some e => .error e
      | none => .ok (entries ++ [(zipFileName, node.content)])

mutual

/-- `filepath.Walk` with the function `walker`. -/
def walk (filePath : GoString) : Tree → List Entry → Except GoString (List Entry)
  | .file node, entries => walker w folderBaseName filePath node entries
  | .dir (some e) _, _ => .error e
  | .dir none children, entries => walkNames filePath children entries

def walkNames (filePath : GoString) : Forest → List Entry → Except GoString (List Entry)
  | .nil, entries => .ok entries
  | .cons name tree rest, entries =>
    match walk (joinPath [filePath, name]) tree entries with
    | .error e => .error e
    | .ok entries => walkNames filePath rest entries

end

end Walk

/-- What `ZipFolder` returns, and the entries of the archive if it can be read. -/
structure Zipped where
  name : GoString
  err : Option GoString
  archive : Option (List Entry)

def zipFolder (w : ZipWorld) (folder : GoString) (tree : Tree) : Zipped :=
  let name := folder ++ str ".zip"
  match w.createFile with
  | some e => ⟨name, some e, none⟩
  | none =>
    let folderBaseName := base folder
    match walk w folderBaseName folder tree [] with
    | .error e => ⟨name, some e, none⟩
    | .ok entries => ⟨name, none, if w.close.isSome then none else some entries⟩

/-! ## The files of a tree -/

mutual

/-- The files, each with its path from the folder. -/
def Tree.files (path : List GoString) : Tree → List (List GoString × FileNode)
  | .file node => [(path, node)]
  | .dir _ children => children.files path

def Forest.files (path : List GoString) : Forest → List (List GoString × FileNode)
  | .nil => []
  | .cons name tree rest => tree.files (path ++ [name]) ++ rest.files path

end

def Forest.names : Forest → List GoString
  | .nil => []
  | .cons name _ rest => name :: rest.names

mutual

/-- Names have no slash, are neither empty nor dots, and differ within a directory. -/
def Tree.WellFormed : Tree → Prop
  | .file _ => True
  | .dir _ children => children.WellFormed

def Forest.WellFormed : Forest → Prop
  | .nil => True
  | .cons name tree rest =>
    (slash ∉ name ∧ Plain name) ∧ name ∉ rest.names ∧ tree.WellFormed ∧ rest.WellFormed

end

/-- The last name of a path. -/
def lastName (path : List GoString) : GoString := path.getLastD []

def zipName (folderBaseName : GoString) (path : List GoString) : GoString :=
  joinPath [folderBaseName, lastName path]

/-- The last write of a name is what is left of it. -/
def extract (archive : List Entry) (name : GoString) : Option GoString :=
  ((archive.filter fun entry => entry.1 = name).getLast?).map Prod.snd

def regularFiles (files : List (List GoString × FileNode)) : List (List GoString × FileNode) :=
  files.filter fun file => file.2.regular

/-- The entries are the regular files, one each, and each file can be extracted. -/
def Preserves (archive : List Entry) (files : List (List GoString × FileNode)) : Prop :=
  ∃ name : List GoString → GoString,
    (∀ file ∈ regularFiles files, ∀ file' ∈ regularFiles files,
        name file.1 = name file'.1 → file.1 = file'.1) ∧
      (archive.map Prod.fst).Perm ((regularFiles files).map fun file => name file.1) ∧
      ∀ file ∈ regularFiles files, extract archive (name file.1) = some file.2.content

/-! ## Names -/

theorem joinPath_eq (front : GoString) {name : GoString} (hname : slash ∉ name ∧ Plain name) :
    joinPath [front, name] = (parse front).inFront ++ name := by
  have hne : name ≠ [] := hname.2.1
  by_cases hfront : front = []
  · subst hfront
    have hparse : parse name = (parse []).child name hname.1 := parse_upToSlash_append [] hname.1
    have hjoin : joinPath [[], name] = clean name := by
      rw [joinPath, List.dropWhile_cons_of_pos rfl,
        List.dropWhile_cons_of_neg (by simpa using hne)]
      show clean (join [name] [slash]) = clean name
      rw [join, List.intercalate_singleton]
    rw [hjoin, clean, hparse, render_child _ hname.1 hname.2]
  · have hjoin : joinPath [front, name] = clean (front ++ slash :: name) := by
      rw [joinPath, List.dropWhile_cons_of_neg (by simpa using hfront)]
      show clean (join [front, name] [slash]) = _
      simp [join]
    rw [hjoin, clean, parse_append_slash hname.1 hfront, render_child _ hname.1 hname.2]

theorem base_joinPath (front : GoString) {name : GoString} (hname : slash ∉ name ∧ Plain name) :
    base (joinPath [front, name]) = name := by
  rw [joinPath_eq front hname, base_inFront_append _ hname.1 hname.2.1]

theorem lastName_append (path : List GoString) (name : GoString) :
    lastName (path ++ [name]) = name := by
  rw [lastName, List.getLastD_concat]

/-! ## The walk -/

section Entries

variable {w : ZipWorld} {folderBaseName : GoString}

/-- The entry of a file. -/
def entryOf (folderBaseName : GoString) (file : List GoString × FileNode) : Entry :=
  (zipName folderBaseName file.1, file.2.content)

theorem walker_ok {filePath : GoString} {path : List GoString} {node : FileNode}
    {entries entries' : List Entry} (hbase : base filePath = lastName path)
    (h : walker w folderBaseName filePath node entries = .ok entries') :
    entries' = entries ++ [entryOf folderBaseName (path, node)] := by
  unfold walker at h
  split at h
  · cases h
  dsimp only at h
  split at h
  · cases h
  split at h
  · cases h
  · rw [← Except.ok.inj h, hbase]
    rfl

mutual

/-- A walk without an error adds the entries of the files of the tree, in their order. -/
theorem walk_ok : ∀ (tree : Tree) {filePath : GoString} {path : List GoString}
    {entries entries' : List Entry}, tree.WellFormed →
    (∀ node, tree = .file node → base filePath = lastName path) →
    walk w folderBaseName filePath tree entries = .ok entries' →
    entries' = entries ++ (tree.files path).map (entryOf folderBaseName)
  | .file node, _, _, _, _, _, hbase, h => walker_ok (hbase node rfl) h
  | .dir (some e) children, _, _, _, _, _, _, h => by cases h
  | .dir none children, _, _, _, _, hwf, _, h => walkNames_ok children hwf h

theorem walkNames_ok : ∀ (forest : Forest) {filePath : GoString} {path : List GoString}
    {entries entries' : List Entry}, forest.WellFormed →
    walkNames w folderBaseName filePath forest entries = .ok entries' →
    entries' = entries ++ (forest.files path).map (entryOf folderBaseName)
  | .nil, _, _, entries, entries', _, h => by
    rw [← Except.ok.inj h]
    exact (List.append_nil _).symm
  | .cons name tree rest, filePath, path, entries, entries', hwf, h => by
    obtain ⟨hname, -, htree, hrest⟩ := hwf
    unfold walkNames at h
    cases hwalk : walk w folderBaseName (joinPath [filePath, name]) tree entries with
    | error e => rw [hwalk] at h; cases h
    | ok added =>
      rw [hwalk] at h
      have hbase : ∀ node, tree = .file node →
          base (joinPath [filePath, name]) = lastName (path ++ [name]) := by
        intro node _
        rw [base_joinPath filePath hname, lastName_append]
      have hadded := walk_ok tree htree hbase hwalk
      rw [walkNames_ok rest hrest h, hadded, Forest.files, List.map_append, List.append_assoc]

end

end Entries

mutual

theorem Tree.prefix_of_mem : ∀ (tree : Tree) {path p : List GoString} {node : FileNode},
    (p, node) ∈ tree.files path → path <+: p
  | .file _, _, _, _, h => by
    obtain ⟨rfl, -⟩ := Prod.mk.inj (List.mem_singleton.mp h)
    exact List.prefix_rfl
  | .dir _ children, path, p, _, h => by
    obtain ⟨name, -, hname⟩ := Forest.prefix_of_mem children h
    exact (List.prefix_append path [name]).trans hname

/-- A file of a directory is below one of its names. -/
theorem Forest.prefix_of_mem : ∀ (forest : Forest) {path p : List GoString} {node : FileNode},
    (p, node) ∈ forest.files path → ∃ name ∈ forest.names, path ++ [name] <+: p
  | .nil, _, _, _, h => absurd h List.not_mem_nil
  | .cons name tree rest, path, p, node, h => by
    rcases List.mem_append.mp h with h | h
    · exact ⟨name, List.mem_cons_self, Tree.prefix_of_mem tree h⟩
    · obtain ⟨name', hmem, hname'⟩ := Forest.prefix_of_mem rest h
      exact ⟨name', List.mem_cons_of_mem _ hmem, hname'⟩

end

mutual

/-- Every file has a path of its own. -/
theorem Tree.nodup_paths : ∀ (tree : Tree) (path : List GoString), tree.WellFormed →
    ((tree.files path).map Prod.fst).Nodup
  | .file _, path, _ => List.nodup_singleton path
  | .dir _ children, path, h => Forest.nodup_paths children path h

theorem Forest.nodup_paths : ∀ (forest : Forest) (path : List GoString), forest.WellFormed →
    ((forest.files path).map Prod.fst).Nodup
  | .nil, _, _ => List.nodup_nil
  | .cons name tree rest, path, h => by
    obtain ⟨-, hfresh, htree, hrest⟩ := h
    rw [Forest.files, List.map_append]
    refine List.nodup_append.mpr ⟨Tree.nodup_paths tree _ htree,
      Forest.nodup_paths rest path hrest, ?_⟩
    intro p hp p' hp' heq
    obtain ⟨⟨p, node⟩, hmem, rfl⟩ := List.mem_map.mp hp
    obtain ⟨⟨p', node'⟩, hmem', rfl⟩ := List.mem_map.mp hp'
    obtain rfl : p = p' := heq
    have hbelow := Tree.prefix_of_mem tree hmem
    obtain ⟨name', hname', hbelow'⟩ := Forest.prefix_of_mem rest hmem'
    -- one path is below two names of the same directory
    have hsame : path ++ [name] = path ++ [name'] := by
      refine (List.prefix_of_prefix_length_le hbelow hbelow' ?_).eq_of_length ?_
      · simp
      · simp
    obtain rfl : name = name' := by simpa using hsame
    exact hfresh hname'

end

mutual

/-- The last name of a file's path is a name of the tree. -/
theorem Tree.plain_lastName : ∀ (tree : Tree) {path p : List GoString} {node : FileNode},
    tree.WellFormed → (slash ∉ lastName path ∧ Plain (lastName path)) →
    (p, node) ∈ tree.files path → slash ∉ lastName p ∧ Plain (lastName p)
  | .file _, _, _, _, _, hpath, h => by
    obtain ⟨rfl, -⟩ := Prod.mk.inj (List.mem_singleton.mp h)
    exact hpath
  | .dir _ children, _, _, _, hwf, _, h => Forest.plain_lastName children hwf h

theorem Forest.plain_lastName : ∀ (forest : Forest) {path p : List GoString} {node : FileNode},
    forest.WellFormed → (p, node) ∈ forest.files path → slash ∉ lastName p ∧ Plain (lastName p)
  | .nil, _, _, _, _, h => absurd h List.not_mem_nil
  | .cons name tree rest, path, _, _, hwf, h => by
    obtain ⟨hname, -, htree, hrest⟩ := hwf
    rcases List.mem_append.mp h with h | h
    · have hlast : slash ∉ lastName (path ++ [name]) ∧ Plain (lastName (path ++ [name])) := by
        rw [lastName_append]
        exact hname
      exact Tree.plain_lastName tree htree hlast h
    · exact Forest.plain_lastName rest hrest h

end

/-! ## When the archive preserves the tree -/

theorem extract_of_mem {archive : List Entry} (hnodup : (archive.map Prod.fst).Nodup)
    {entry : Entry} (h : entry ∈ archive) : extract archive entry.1 = some entry.2 := by
  have hmem : entry ∈ archive.filter fun e => e.1 = entry.1 :=
    List.mem_filter.mpr ⟨h, decide_eq_true rfl⟩
  have hne := List.ne_nil_of_mem hmem
  have hlast := List.getLast_mem hne
  obtain ⟨hin, hname⟩ := List.mem_filter.mp hlast
  have hsame := List.inj_on_of_nodup_map hnodup hin h (of_decide_eq_true hname)
  rw [extract, List.getLast?_eq_some_getLast hne, hsame, Option.map_some]

section Preserves

variable {folderBaseName : GoString} {files : List (List GoString × FileNode)}

/-- An archive of the entries preserves the files when it has one for each file, and only
regular files. -/
theorem preserves_of_nodup
    (hplain : ∀ file ∈ files, slash ∉ lastName file.1 ∧ Plain (lastName file.1))
    (hregular : ∀ file ∈ files, file.2.regular = true)
    (hnodup : (files.map fun file => lastName file.1).Nodup) :
    Preserves (files.map (entryOf folderBaseName)) files := by
  have hall : regularFiles files = files := List.filter_eq_self.mpr hregular
  have hinj : ∀ file ∈ files, ∀ file' ∈ files,
      zipName folderBaseName file.1 = zipName folderBaseName file'.1 → file = file' := by
    intro file hfile file' hfile' heq
    rw [zipName, zipName, joinPath_eq _ (hplain file hfile),
      joinPath_eq _ (hplain file' hfile')] at heq
    exact List.inj_on_of_nodup_map hnodup hfile hfile' (List.append_cancel_left heq)
  have hnames : ((files.map (entryOf folderBaseName)).map Prod.fst).Nodup := by
    rw [List.map_map]
    have hfiles : files.Nodup := hnodup.of_map _
    exact hfiles.map_on fun file hfile file' hfile' heq => hinj file hfile file' hfile' heq
  refine ⟨zipName folderBaseName, ?_, ?_, ?_⟩
  · rw [hall]
    exact fun file hfile file' hfile' heq => congrArg Prod.fst (hinj file hfile file' hfile' heq)
  · rw [hall, List.map_map]
    exact List.Perm.refl _
  · rw [hall]
    exact fun file hfile => extract_of_mem hnames (List.mem_map_of_mem hfile)

/-- One entry for each regular file leaves no room for another file, or for two files of one
base name. -/
theorem nodup_of_preserves (hpaths : (files.map Prod.fst).Nodup)
    (h : Preserves (files.map (entryOf folderBaseName)) files) :
    (∀ file ∈ files, file.2.regular = true) ∧
      (files.map fun file => lastName file.1).Nodup := by
  obtain ⟨name, hinj, hperm, -⟩ := h
  have hlength := hperm.length_eq
  simp only [List.length_map] at hlength
  have hall : regularFiles files = files :=
    (List.filter_sublist : (regularFiles files).Sublist files).eq_of_length hlength.symm
  refine ⟨List.filter_eq_self.mp hall, ?_⟩
  rw [hall] at hinj hperm
  have hfiles : files.Nodup := hpaths.of_map _
  have hnames : (files.map fun file => name file.1).Nodup :=
    hfiles.map_on fun file hfile file' hfile' heq =>
      List.inj_on_of_nodup_map hpaths hfile hfile' (hinj file hfile file' hfile' heq)
  have hzip := hperm.nodup_iff.mpr hnames
  have hfactor : (files.map (entryOf folderBaseName)).map Prod.fst =
      (files.map fun file => lastName file.1).map fun last =>
        joinPath [folderBaseName, last] := by
    rw [List.map_map, List.map_map]
    rfl
  rw [hfactor] at hzip
  exact hzip.of_map _

end Preserves

/-- Without an error, the archive preserves the tree exactly when it could be closed, every file
is a regular one, and no two files have the same base name. -/
theorem zipFolder_preserves_iff (w : ZipWorld) (folder : GoString)
    (readDirNames : Option GoString) (children : Forest) (hwf : children.WellFormed)
    (herr : (zipFolder w folder (.dir readDirNames children)).err = none) :
    (∃ archive, (zipFolder w folder (.dir readDirNames children)).archive = some archive ∧
        Preserves archive (children.files [])) ↔
      w.close = none ∧ (∀ file ∈ children.files [], file.2.regular = true) ∧
        ((children.files []).map fun file => lastName file.1).Nodup := by
  have hplain : ∀ file ∈ children.files [], slash ∉ lastName file.1 ∧ Plain (lastName file.1) :=
    fun file hfile => children.plain_lastName hwf hfile
  have hzip : (zipFolder w folder (.dir readDirNames children)).archive =
      if w.close.isSome then none
      else some ((children.files []).map (entryOf (base folder))) := by
    unfold zipFolder at herr ⊢
    cases hcreate : w.createFile with
    | some e => rw [hcreate] at herr; cases herr
    | none =>
      rw [hcreate] at herr
      dsimp only at herr ⊢
      cases hwalk : walk w (base folder) folder (.dir readDirNames children) [] with
      | error e => rw [hwalk] at herr; cases herr
      | ok entries =>
        have hentries : entries = [] ++ (children.files []).map (entryOf (base folder)) :=
          walk_ok (.dir readDirNames children) hwf (fun node hnode => by cases hnode) hwalk
        rw [hentries]
        rfl
  rw [hzip]
  constructor
  · intro h
    obtain ⟨archive, harchive, hpreserves⟩ := h
    cases hclose : w.close with
    | some e => rw [hclose] at harchive; cases harchive
    | none =>
      rw [hclose] at harchive
      obtain rfl := Option.some.inj harchive
      exact ⟨rfl, nodup_of_preserves (children.nodup_paths [] hwf) hpreserves⟩
  · intro h
    obtain ⟨hclose, hregular, hnodup⟩ := h
    rw [hclose]
    exact ⟨_, rfl, preserves_of_nodup hplain hregular hnodup⟩

def textFile (content : GoString) : Tree := .file ⟨true, none, content, none⟩

def noErrors : ZipWorld := ⟨none, fun _ => none, none⟩

/-- A file in a folder, and one in a directory of it. -/
def nested (name name' : GoString) : Forest :=
  .cons (str "ed") (.dir none (.cons name (textFile (str "2")) .nil))
    (.cons name' (textFile (str "1")) .nil)

theorem wellFormed_nested {name name' : GoString} (hname : slash ∉ name ∧ Plain name)
    (hname' : (slash ∉ name' ∧ Plain name') ∧ name' ≠ str "ed") :
    (nested name name').WellFormed := by
  have hed : slash ∉ str "ed" ∧ Plain (str "ed") :=
    ⟨by decide, by decide, by decide, by decide⟩
  have hfresh : str "ed" ∉ [name'] := fun h => hname'.2 (List.mem_singleton.mp h).symm
  exact ⟨hed, hfresh, ⟨hname, List.not_mem_nil, trivial, trivial⟩, hname'.1, List.not_mem_nil,
    trivial, trivial⟩

theorem zipFolder_preserves_twoFiles :
    ∃ archive, (zipFolder noErrors (str "yc-1")
        (.dir none (nested (str "b.txt") (str "a.txt")))).archive = some archive ∧
      Preserves archive ((nested (str "b.txt") (str "a.txt")).files []) := by
  have hwf : (nested (str "b.txt") (str "a.txt")).WellFormed :=
    wellFormed_nested ⟨by decide, by decide, by decide, by decide⟩
      ⟨⟨by decide, by decide, by decide, by decide⟩, by decide⟩
  exact (zipFolder_preserves_iff noErrors (str "yc-1") none _ hwf (by decide)).mpr
    ⟨rfl, by decide, by decide⟩

/-- A file that the script of the extended data names like one of the capture. -/
theorem zipFolder_collides :
    ¬ ∀ (w : ZipWorld) (folder : GoString) (readDirNames : Option GoString) (children : Forest),
      children.WellFormed → (zipFolder w folder (.dir readDirNames children)).err = none →
        ∃ archive, (zipFolder w folder (.dir readDirNames children)).archive = some archive ∧
          Preserves archive (children.files []) := by
  intro h
  have hwf : (nested (str "a.txt") (str "a.txt")).WellFormed :=
    wellFormed_nested ⟨by decide, by decide, by decide, by decide⟩
      ⟨⟨by decide, by decide, by decide, by decide⟩, by decide⟩
  obtain ⟨archive, harchive, hpreserves⟩ := h noErrors (str "yc-1") none _ hwf (by decide)
  have hentries : (zipFolder noErrors (str "yc-1")
      (.dir none (nested (str "a.txt") (str "a.txt")))).archive =
        some (((nested (str "a.txt") (str "a.txt")).files []).map (entryOf (str "yc-1"))) := by
    decide
  obtain rfl := Option.some.inj (harchive.symm.trans hentries)
  have hnodup := (nodup_of_preserves ((nested _ _).nodup_paths [] hwf) hpreserves).2
  revert hnodup
  decide

end YcAgent.Ondemand.Zip
