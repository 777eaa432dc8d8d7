import YcAgent.Capture.ExtendedData

/-!
# The folder of the script from run to run

The data folder stays from one capture to the next. `clearDataFolder` goes through it in the order
of the names and gives up at the first entry that it cannot remove, which `Run` only logs: what a
script left behind that entry is posted once more with what the next script leaves.
-/
namespace YcAgent.Capture.ExtendedData

open Go Go.FilePath

attribute [local instance] nameOrder

abbrev Edit := Listing.Edit GoString Entry

/-- How the steps before the copies end, with the changes of the folder by others before the run
and by the script until it is listed again. -/
structure Session where
  meanwhile : List Edit
  mkdirAll : Option GoString
  readFolder : Option GoString
  removeAll : GoString → Option GoString
  createLog : Option GoString
  start : Option GoString
  script : List Edit

section Run

variable (s : Session) (folder : Dir)

def clearDataFolder : Dir :=
  match s.readFolder with
  | some _ => folder
  | none => folder.dropWhile fun entry => (s.removeAll entry.1).isNone

def logName : GoString := str "script_execution.log"

/-- Whether the script ends in time and how does not count; one that is killed has left what it
has left. -/
def executeScript : Dir :=
  if isDirB folder logName then folder
  else
    match s.createLog with
    | some _ => folder
    | none =>
      match s.start with
      | some _ => folder.write logName (.file [])
      | none => (folder.write logName (.file [])).edits s.script

/-- What is in the folder when it is listed. -/
def leaves : Dir :=
  match s.mkdirAll with
  | some _ => folder.edits s.meanwhile
  | none => executeScript s (clearDataFolder s (folder.edits s.meanwhile))

def run (o : Options) (endpoint dataFolder : GoString) (w : World) (cwd : Dir) : Dir × Outcome :=
  match s.mkdirAll with
  | some e =>
    (leaves s folder,
      ⟨[], ⟨str "ExtendedData: failed to create data folder " ++ dataFolder ++ str ": " ++ e,
        false⟩, some e⟩)
  | none => (leaves s folder, runUploads o endpoint w (leaves s folder) cwd)

end Run

/-- The folder after one run and another. -/
def runs (folder : Dir) (ss : List Session) : Dir :=
  ss.foldl (fun folder s => leaves s folder) folder

/-! ## What the clearing leaves -/

/-- The entry of this name is not reached by the clearing, or cannot be removed. -/
def Stuck (s : Session) (folder : Dir) (name : GoString) : Prop :=
  s.mkdirAll ≠ none ∨ s.readFolder ≠ none ∨
    ∃ g ∈ (folder.edits s.meanwhile).files, g.1 ≤ name ∧ s.removeAll g.1 ≠ none

def StuckAll (name : GoString) : Dir → List Session → Prop
  | _, [] => True
  | folder, s :: ss => Stuck s folder name ∧ StuckAll name (leaves s folder) ss

/-- Neither the script nor anybody else writes or removes the file. -/
structure Spares (s : Session) (name : GoString) : Prop where
  notLog : name ≠ logName
  meanwhile : ∀ e ∈ s.meanwhile, e.name ≠ name
  script : ∀ e ∈ s.script, e.name ≠ name

/-- The order of the listing is the one in which names are compared. -/
theorem nameOrder_le_iff (f g : GoString) : nameOrder.toLE.le f g ↔ f ≤ g :=
  (@not_lt _ nameOrder g f).symm

section Stale

variable {s : Session} {folder : Dir} {name : GoString} {x : Entry}

theorem mem_clearDataFolder :
    (name, x) ∈ (clearDataFolder s folder).files ↔ (name, x) ∈ folder.files ∧
      (s.readFolder ≠ none ∨ ∃ g ∈ folder.files, g.1 ≤ name ∧ s.removeAll g.1 ≠ none) := by
  unfold clearDataFolder
  split
  · rename_i hread
    rw [hread]
    exact (and_iff_left (Or.inl (Option.some_ne_none _))).symm
  · rename_i hread
    rw [hread, Listing.mem_dropWhile]
    refine and_congr_right fun _ => Iff.trans ?_ (or_iff_right fun h => h rfl).symm
    refine exists_congr fun g => and_congr_right fun _ => and_congr (nameOrder_le_iff _ _) ?_
    rw [Option.isNone_eq_false_iff, Option.isSome_iff_ne_none]

theorem mem_executeScript (h : Spares s name) :
    (name, x) ∈ (executeScript s folder).files ↔ (name, x) ∈ folder.files := by
  have hlog : (name, x) ∈ (folder.write logName (.file [])).files ↔ (name, x) ∈ folder.files := by
    refine Listing.mem_write.trans ⟨fun hx => ?_, fun hx => Or.inr ⟨hx, h.notLog⟩⟩
    exact (hx.resolve_left fun heq => h.notLog (congrArg Prod.fst heq)).1
  unfold executeScript
  split
  · exact Iff.rfl
  · split
    · exact Iff.rfl
    · split
      · exact hlog
      · exact (Listing.mem_edits_of_forall_ne h.script).trans hlog

theorem mem_leaves (h : Spares s name) :
    (name, x) ∈ (leaves s folder).files ↔ (name, x) ∈ folder.files ∧ Stuck s folder name := by
  have hmeanwhile : (name, x) ∈ (folder.edits s.meanwhile).files ↔ (name, x) ∈ folder.files :=
    Listing.mem_edits_of_forall_ne h.meanwhile
  unfold leaves Stuck
  split
  · rename_i hmkdir
    rw [hmkdir, hmeanwhile]
    exact (and_iff_left (Or.inl (Option.some_ne_none _))).symm
  · rename_i hmkdir
    rw [hmkdir, mem_executeScript h, mem_clearDataFolder, hmeanwhile]
    simp

theorem mem_runs {ss : List Session} (h : ∀ s ∈ ss, Spares s name) :
    (name, x) ∈ (runs folder ss).files ↔ (name, x) ∈ folder.files ∧ StuckAll name folder ss := by
  induction ss generalizing folder with
  | nil => exact (and_iff_left trivial).symm
  | cons s ss ih =>
    obtain ⟨hs, hss⟩ := List.forall_mem_cons.mp h
    refine (ih hss).trans ?_
    rw [mem_leaves hs, and_assoc]
    rfl

end Stale

/-! ## What is posted -/

/-- Everything from the copies to the listing of the working directory goes through. -/
structure Smooth (w : World) : Prop where
  readFolder : w.readFolder = none
  readCwd : w.readCwd = none
  copies : ∀ name, w.copies name = ⟨none, none, none⟩

/-- A file for `PostData`. -/
def upload? (entry : GoString × Entry) : Option (GoString × GoString) :=
  match entry.2 with
  | .dir => none
  | .file content => if hasPrefix entry.1 (str "ed-") = false then none else some (entry.1, content)

theorem tried_eq (o : Options) (endpoint : GoString) (w : World) (entry : GoString × Entry) :
    tried o endpoint w entry = (upload? entry).map fun p => attempt o endpoint w p.1 p.2 := by
  obtain ⟨name, x⟩ := entry
  cases x with
  | dir => rfl
  | file content =>
    simp only [tried, upload?]
    split
    · rfl
    · rfl

/-- The copies that the entries of the folder lead to. -/
def edCopy? (entry : GoString × Entry) : Option (GoString × Entry) :=
  match entry.2 with
  | .dir => none
  | .file content => some (edName entry.1, .file content)

theorem foldl_captureEdFile {w : World} (hw : Smooth w) (entries : List (GoString × Entry))
    {cwd : Dir} (hcwd : ∀ name, ¬ IsDir cwd (edName name)) :
    entries.foldl (captureEdFile w) cwd = cwd.writeAll (entries.filterMap edCopy?) := by
  induction entries generalizing cwd with
  | nil => rfl
  | cons entry entries ih =>
    obtain ⟨name, x⟩ := entry
    cases x with
    | dir => exact ih hcwd
    | file content =>
      have hdir : isDirB cwd (edName name) ≠ true := fun hb =>
        hcwd name ((isDirB_iff _ _).mp hb)
      have hwrite : captureEdFile w cwd (name, .file content) =
          cwd.write (edName name) (.file content) := by
        simp only [captureEdFile, copyFile, createError, hw.copies, if_neg hdir]
      rw [List.foldl_cons, hwrite]
      exact ih fun other hother => hcwd other ((isDir_write (hcwd name) _ _).mp hother)

theorem nodup_edCopies (folder : Dir) :
    ((folder.files.filterMap edCopy?).map Prod.fst).Nodup := by
  refine List.pairwise_map.mpr (List.pairwise_filterMap.mpr (folder.sorted.imp ?_))
  rintro ⟨f, x⟩ ⟨g, y⟩ hlt p hp q hq
  cases x with
  | dir => cases hp
  | file c =>
    cases y with
    | dir => cases hq
    | file c' =>
      rw [← Option.some.inj hp, ← Option.some.inj hq]
      exact fun heq => ne_of_lt hlt (edName_inj heq)

/-- In a directory that has no file with the prefix yet, the files that are posted are those of
the folder. -/
theorem exists_uploads {w : World} (hw : Smooth w) (o : Options) (endpoint : GoString)
    (folder : Dir) {cwd : Dir} (hcwd : ∀ g ∈ cwd.files, ¬ str "ed-" <+: g.1) :
    ∃ files : List (GoString × GoString), (runUploads o endpoint w folder cwd).attempts =
        files.map (fun p => attempt o endpoint w p.1 p.2) ∧
      ∀ name content, (edName name, content) ∈ files ↔
        (name, Entry.file content) ∈ folder.files := by
  have hdir : ∀ name, ¬ IsDir cwd (edName name) := fun name h =>
    hcwd _ h (List.prefix_append _ _)
  obtain ⟨d, hd⟩ : ∃ d, cwd.writeAll (folder.files.filterMap edCopy?) = d := ⟨_, rfl⟩
  have hrun : runUploads o endpoint w folder cwd = uploadCapturedFiles o endpoint w d := by
    rw [runUploads, captureEdFiles_ok hw.readFolder, foldl_captureEdFile hw _ hdir, hd]
  refine ⟨d.files.filterMap upload?, ?_, fun name content => ?_⟩
  · rw [hrun, (uploadCapturedFiles_spec hw.readCwd d).1, List.map_filterMap]
    exact List.filterMap_congr fun entry _ => tried_eq o endpoint w entry
  · have hmem : (edName name, Entry.file content) ∈ d.files ↔
        (name, Entry.file content) ∈ folder.files := by
      rw [← hd, Listing.mem_writeAll (nodup_edCopies folder), List.mem_filterMap]
      constructor
      · rintro (⟨⟨f, x⟩, hf, hcopy⟩ | ⟨hold, -⟩)
        · cases x with
          | dir => cases hcopy
          | file c =>
            obtain ⟨hname, hcontent⟩ := Prod.mk.inj (Option.some.inj hcopy)
            rw [← edName_inj hname, ← hcontent]
            exact hf
        · exact absurd (List.prefix_append _ _) (hcwd _ hold)
      · intro hf
        exact Or.inl ⟨_, hf, rfl⟩
    rw [← hmem, List.mem_filterMap]
    constructor
    · rintro ⟨⟨f, x⟩, hf, hupload⟩
      cases x with
      | dir => cases hupload
      | file c =>
        unfold upload? at hupload
        dsimp only at hupload
        split at hupload
        · cases hupload
        · obtain ⟨hname, hcontent⟩ := Prod.mk.inj (Option.some.inj hupload)
          rw [← hname, ← hcontent]
          exact hf
    · intro hf
      refine ⟨_, hf, ?_⟩
      have hprefix : hasPrefix (edName name) (str "ed-") = true :=
        (hasPrefix_iff _ _).mpr (List.prefix_append _ _)
      simp [upload?, hprefix]

/-- A file that one capture has left is posted by a later one that has its folder, as it was,
exactly where the clearing got stuck at its name or before in every run since. -/
theorem posted_again_iff {w : World} (hw : Smooth w) (o : Options) (endpoint dataFolder : GoString)
    {cwd : Dir} (hcwd : ∀ g ∈ cwd.files, ¬ str "ed-" <+: g.1) {folder : Dir}
    {name content : GoString} (hname : (name, Entry.file content) ∈ folder.files)
    {ss : List Session} {s : Session} (hspares : ∀ t ∈ ss ++ [s], Spares t name) :
    ∃ files : List (GoString × GoString),
      (run s (runs folder ss) o endpoint dataFolder w cwd).2.attempts =
        files.map (fun p => attempt o endpoint w p.1 p.2) ∧
      ∀ c, (edName name, c) ∈ files ↔
        s.mkdirAll = none ∧ c = content ∧ StuckAll name folder (ss ++ [s]) := by
  cases hs : s.mkdirAll with
  | some e =>
    refine ⟨[], ?_, fun c => iff_of_false List.not_mem_nil fun h => ?_⟩
    · simp only [run, hs, List.map_nil]
    · cases h.1
  | none =>
    obtain ⟨files, hattempts, hfiles⟩ :=
      exists_uploads hw o endpoint (runs folder (ss ++ [s])) hcwd
    have hleaves : runs folder (ss ++ [s]) = leaves s (runs folder ss) := List.foldl_concat ..
    refine ⟨files, ?_, fun c => ?_⟩
    · rw [← hattempts, hleaves]
      simp only [run, hs]
    · rw [hfiles, mem_runs hspares]
      have hsame : (name, Entry.file c) ∈ folder.files ↔ c = content :=
        ⟨fun hc => Entry.file.inj (Listing.eq_of_mem hc hname), fun hc => hc ▸ hname⟩
      rw [hsame]
      exact (and_iff_right rfl).symm

/-- A file of one run. -/
def oneFile : Dir := ⟨[(str "a.txt", .file (str "x"))], List.pairwise_singleton _ _⟩

/-- In the next run the folder cannot be read. -/
def unreadSession : Session :=
  ⟨[], none, some (str "permission denied"), fun _ => none, none, none,
    [.write (str "b.txt") (.file (str "y"))]⟩

/-- And in the one behind it nothing can be removed from it. -/
def stuckSession : Session :=
  ⟨[], none, none, fun _ => some (str "permission denied"), none, none, []⟩

theorem posted_again_twice :
    ∃ files : List (GoString × GoString),
      (run stuckSession (runs oneFile [unreadSession]) defaultOptions (str "http://host/ed")
          (str "/ed") smooth Listing.empty).2.attempts =
        files.map (fun p => attempt defaultOptions (str "http://host/ed") smooth p.1 p.2) ∧
      ∀ c, (edName (str "a.txt"), c) ∈ files ↔ stuckSession.mkdirAll = none ∧
        c = str "x" ∧ StuckAll (str "a.txt") oneFile ([unreadSession] ++ [stuckSession]) := by
  refine posted_again_iff ⟨rfl, rfl, fun _ => rfl⟩ _ _ _ (fun g hg => ?_) List.mem_cons_self ?_
  · exact absurd hg List.not_mem_nil
  · refine List.forall_mem_cons.mpr ⟨⟨by decide, nofun, ?_⟩, ?_⟩
    · exact List.forall_mem_singleton.mpr (by decide)
    · exact List.forall_mem_singleton.mpr ⟨by decide, nofun, nofun⟩

end YcAgent.Capture.ExtendedData
