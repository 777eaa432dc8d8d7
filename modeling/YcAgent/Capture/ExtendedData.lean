import YcAgent.Base.Url
import YcAgent.Capture.AppLog
import YcAgent.Capture.ThreadDump

/-!
# Files of a script of the user

The regular files that the script leaves in the data folder are copied to the working
directory, and what begins with `ed-` there is posted. A plain file goes without its extension,
so two of them may be posted under one name.
-/
namespace YcAgent.Capture.ExtendedData

open Go Go.FilePath

local instance nameOrder : LinearOrder GoString :=
  letI := byteOrder
  inferInstanceAs (LinearOrder (List Byte))

inductive Entry where
  | dir
  | file (content : GoString)

/-- A directory; `os.ReadDir` lists it in the order of the names. -/
abbrev Dir := Listing GoString Entry

def IsDir (d : Dir) (name : GoString) : Prop := (name, Entry.dir) ∈ d.files

def IsFile (d : Dir) (name : GoString) : Prop := ∃ content, (name, Entry.file content) ∈ d.files

/-- How the steps of one copy end; a copy that fails may have written some bytes. -/
structure CopyWorld where
  openSrc : Option GoString
  createDst : Option GoString
  copy : Option (ℕ × GoString)

/-- How the steps of a run end, those of a file by its name. -/
structure World where
  readFolder : Option GoString
  copies : GoString → CopyWorld
  readCwd : Option GoString
  opens : GoString → Option GoString
  posts : GoString → PostWorld

def isDirB (d : Dir) (name : GoString) : Bool :=
  d.files.any fun f => match f.2 with
    | .dir => decide (f.1 = name)
    | .file _ => false

/-- A file cannot be created where there is a directory. -/
def createError (w : CopyWorld) (cwd : Dir) (dst : GoString) : Option GoString :=
  if isDirB cwd dst then some (str "open " ++ dst ++ str ": is a directory") else w.createDst

def copyFile (w : CopyWorld) (cwd : Dir) (content dst : GoString) : Dir × Option GoString :=
  match w.openSrc with
  | some e => (cwd, some (str "ExtendedData: failed to open source file: " ++ e))
  | none =>
    match createError w cwd dst with
    | some e => (cwd, some (str "ExtendedData: failed to create destination file: " ++ e))
    | none =>
      match w.copy with
      | some (n, e) =>
        (cwd.write dst (.file (content.take n)),
          some (str "ExtendedData: failed to copy content: " ++ e))
      | none => (cwd.write dst (.file content), none)

def edName (fileName : GoString) : GoString := str "ed-" ++ fileName

/-- One turn of the loop of `captureEdFiles`; the error of a copy is only logged. -/
def captureEdFile (w : World) (cwd : Dir) (entry : GoString × Entry) : Dir :=
  match entry.2 with
  | .dir => cwd
  | .file content => (copyFile (w.copies entry.1) cwd content (edName entry.1)).1

def captureEdFiles (w : World) (folder cwd : Dir) : Except GoString Dir :=
  match w.readFolder with
  | some e => .error (str "ExtendedData: failed to read data folder: " ++ e)
  | none =>
    if folder.files.length = 0 then .ok cwd
    else .ok (folder.files.foldl (captureEdFile w) cwd)

/-- What became of a file with the prefix. -/
inductive Attempt where
  | unopened (err : GoString)
  | posted (fileName data : GoString) (answer : Posted)

def Attempt.ok : Attempt → Bool
  | .unopened _ => false
  | .posted _ _ answer => answer.ok

structure Uploads where
  attempts : List Attempt
  successCount : ℕ
  failCount : ℕ
  lastError : Option GoString

/-- What `uploadCapturedFiles` gives to `PostData` beside the file. -/
def uploadData (fileName : GoString) : GoString :=
  let fileBaseName := trimSuffix fileName (ext fileName)
  let data := str "ed&fileName=" ++ fileBaseName
  if AppLog.isCompressedFileExt (AppLog.fileExt fileName) then
    data ++ str "&content-encoding=" ++ AppLog.fileExt fileName
  else data

section Upload

variable (o : Options) (endpoint : GoString) (w : World)

def attempt (fileName content : GoString) : Attempt :=
  match w.opens fileName with
  | some e => .unopened e
  | none =>
    let data := uploadData fileName
    .posted fileName data (postData o (w.posts fileName) endpoint data (some ⟨fileName, content⟩))

/-- One turn of the loop of `uploadCapturedFiles`. -/
def uploadEntry (s : Uploads) (entry : GoString × Entry) : Uploads :=
  match entry.2 with
  | .dir => s
  | .file content =>
    if hasPrefix entry.1 (str "ed-") = false then s
    else
      match attempt o endpoint w entry.1 content with
      | .unopened e =>
        { s with
          attempts := s.attempts ++ [.unopened e]
          failCount := s.failCount + 1
          lastError := some e }
      | .posted fileName data answer =>
        let s := { s with attempts := s.attempts ++ [Attempt.posted fileName data answer] }
        if answer.ok then { s with successCount := s.successCount + 1 }
        else
          { s with
            failCount := s.failCount + 1
            lastError := some (str "upload failed: " ++ answer.msg) }

def summary (successCount failCount : ℕ) (lastError : Option GoString) :
    Result × Option GoString :=
  if failCount > 0 then
    (⟨str "uploaded " ++ itoa successCount ++ str " files, " ++ itoa failCount ++ str " failed",
      successCount > 0⟩, lastError)
  else if successCount = 0 then (⟨str "no files with 'ed-' prefix found for upload", true⟩, none)
  else (⟨str "successfully uploaded " ++ itoa successCount ++ str " files", true⟩, none)

/-- What a run does and returns. -/
structure Outcome where
  attempts : List Attempt
  result : Result
  err : Option GoString

def uploadCapturedFiles (cwd : Dir) : Outcome :=
  match w.readCwd with
  | some e => ⟨[], ⟨str "ExtendedData: failed to read current directory: " ++ e, false⟩, some e⟩
  | none =>
    let s := cwd.files.foldl (uploadEntry o endpoint w) ⟨[], 0, 0, none⟩
    let (result, err) := summary s.successCount s.failCount s.lastError
    ⟨s.attempts, result, err⟩

/-- `Run` from where the script has ended. -/
def runUploads (folder cwd : Dir) : Outcome :=
  match captureEdFiles w folder cwd with
  | .error e => ⟨[], ⟨str "ExtendedData: failed to capture files: " ++ e, false⟩, some e⟩
  | .ok cwd => uploadCapturedFiles o endpoint w cwd

end Upload

/-! ## What the uploads should be -/

/-- The names of the regular files. -/
def regular (d : Dir) : List GoString :=
  d.files.filterMap fun f => match f.2 with
    | .dir => none
    | .file _ => some f.1

/-- The name of the file and the data of a call of `PostData`. -/
def Attempt.post? : Attempt → Option (GoString × GoString)
  | .unopened _ => none
  | .posted fileName data _ => some (fileName, data)

/-- The address that `PostData` makes of the data. -/
def address (endpoint data : GoString) : GoString := endpoint ++ str "&" ++ (str "dt=" ++ data)

def parameterNames : List GoString := [str "fileName", str "content-encoding"]

/-- What a server reads off an address for the two parameters of a file. -/
def parameters (front : GoString → Bool) (endpoint data : GoString) :
    Option (List (List GoString)) :=
  (Url.query front (address endpoint data)).map fun q => parameterNames.map (Url.values q)

namespace Outcome

variable (r : Outcome)

def posts : List (GoString × GoString) := r.attempts.filterMap Attempt.post?

def succeeded : ℕ := r.attempts.countP Attempt.ok

def failed : ℕ := r.attempts.countP fun a => !a.ok

/-- The counts, the flag and the error are those of the outcomes. -/
structure Agrees : Prop where
  someFailed : 0 < r.failed → r.result.msg =
    str "uploaded " ++ itoa r.succeeded ++ str " files, " ++ itoa r.failed ++ str " failed"
  noFile : r.failed = 0 → r.succeeded = 0 →
    r.result.msg = str "no files with 'ed-' prefix found for upload"
  allUploaded : r.failed = 0 → 0 < r.succeeded →
    r.result.msg = str "successfully uploaded " ++ itoa r.succeeded ++ str " files"
  notOk : r.result.ok = false → 0 < r.failed ∧ r.succeeded = 0
  err : r.err = none ↔ r.failed = 0

/-- Every file of the folder is posted once, and any two of them as different files. -/
structure Distinguishes (front : GoString → Bool) (endpoint : GoString) (folder : Dir) : Prop where
  oneEach : (r.posts.map Prod.fst).Perm ((regular folder).map edName)
  distinct : ∀ p ∈ r.posts, ∀ q ∈ r.posts, p.1 ≠ q.1 → ∀ values,
    parameters front endpoint p.2 = some values → parameters front endpoint q.2 ≠ some values
  agrees : r.Agrees

end Outcome

/-- The part of a name that is posted with a plain file. -/
def stem (fileName : GoString) : GoString := trimSuffix fileName (ext fileName)

/-- The parameters that a name spells: as far as a number sign, what is in front of the first
ampersand is the name that is read, and the text behind it is parameters of its own. -/
def spelled (fileName : GoString) : List (GoString × GoString) :=
  let text := (Url.cut (stem fileName) Url.hash).1
  let value := (Url.cut text Url.ampersand).1
  let name := if Url.semicolon ∈ value then none else Url.queryUnescape value
  name.toList.map (str "fileName", ·) ++ Url.parseQuery (Url.cut text Url.ampersand).2 ++
    if AppLog.IsCompressed fileName ∧ Url.hash ∉ stem fileName then
      [(str "content-encoding", AppLog.fileExt fileName)]
    else []

/-- Two files can both be posted, and their names spell the same two parameters, or these are
behind the number sign of the endpoint. -/
structure Clash (front : GoString → Bool) (endpoint f g : GoString) : Prop where
  server : (Url.parse front endpoint).isSome
  first : Url.Appendable endpoint (stem f)
  second : Url.Appendable endpoint (stem g)
  same : Url.hash ∈ endpoint ∨
    ∀ key ∈ parameterNames, Url.values (spelled f) key = Url.values (spelled g) key

/-- A copy of the file is made. -/
structure Created (w : World) (cwd : Dir) (name : GoString) : Prop where
  openSrc : (w.copies name).openSrc = none
  createDst : (w.copies name).createDst = none
  notDir : ¬ IsDir cwd (edName name)

structure Separate (front : GoString → Bool) (endpoint : GoString) (w : World) (folder cwd : Dir) :
    Prop where
  readFolder : w.readFolder = none
  readCwd : w.readCwd = none
  copied : ∀ name, IsFile folder name → Created w cwd name ∨ IsFile cwd (edName name)
  opened : ∀ name, IsFile folder name → w.opens (edName name) = none
  noOther : ∀ name, IsFile cwd (edName name) → w.opens (edName name) = none → IsFile folder name
  apart : ∀ f g, IsFile folder f → IsFile folder g → f ≠ g →
    ¬ Clash front endpoint (edName f) (edName g)

/-! ## The copies -/

theorem isDirB_iff (d : Dir) (name : GoString) : isDirB d name = true ↔ IsDir d name := by
  rw [isDirB, List.any_eq_true]
  constructor
  · rintro ⟨⟨n, entry⟩, hmem, hentry⟩
    cases entry with
    | dir => exact of_decide_eq_true hentry ▸ hmem
    | file content => cases hentry
  · intro hmem
    exact ⟨_, hmem, decide_eq_true rfl⟩

theorem mem_regular (d : Dir) (name : GoString) : name ∈ regular d ↔ IsFile d name := by
  rw [regular, List.mem_filterMap]
  constructor
  · rintro ⟨⟨n, entry⟩, hmem, hentry⟩
    cases entry with
    | dir => cases hentry
    | file content => exact ⟨content, Option.some.inj hentry ▸ hmem⟩
  · rintro ⟨content, hmem⟩
    exact ⟨_, hmem, rfl⟩

theorem isFile_write (d : Dir) (name content other : GoString) :
    IsFile (d.write name (.file content)) other ↔ other = name ∨ IsFile d other := by
  constructor
  · rintro ⟨c, hmem⟩
    rcases Listing.mem_write.mp hmem with heq | ⟨hold, -⟩
    · exact Or.inl (congrArg Prod.fst heq)
    · exact Or.inr ⟨c, hold⟩
  · intro h
    by_cases hname : other = name
    · exact ⟨content, Listing.mem_write.mpr (Or.inl (by rw [hname]))⟩
    · obtain ⟨c, hold⟩ := h.resolve_left hname
      exact ⟨c, Listing.mem_write.mpr (Or.inr ⟨hold, hname⟩)⟩

theorem isDir_write {d : Dir} {name : GoString} (hname : ¬ IsDir d name)
    (content other : GoString) :
    IsDir (d.write name (.file content)) other ↔ IsDir d other := by
  constructor
  · intro hmem
    rcases Listing.mem_write.mp hmem with heq | ⟨hold, -⟩
    · cases congrArg Prod.snd heq
    · exact hold
  · intro hold
    refine Listing.mem_write.mpr (Or.inr ⟨hold, ?_⟩)
    rintro rfl
    exact hname hold

section Copies

variable {w : World} {cwd : Dir} {name content : GoString}

theorem captureEdFile_created (content : GoString) (h : Created w cwd name) :
    ∃ c, captureEdFile w cwd (name, .file content) = cwd.write (edName name) (.file c) := by
  have hdir : isDirB cwd (edName name) ≠ true := fun hb => h.notDir ((isDirB_iff _ _).mp hb)
  have hcreate : createError (w.copies name) cwd (edName name) = none := by
    rw [createError, if_neg hdir, h.createDst]
  simp only [captureEdFile, copyFile, h.openSrc, hcreate]
  cases (w.copies name).copy with
  | none => exact ⟨content, rfl⟩
  | some failure => exact ⟨content.take failure.1, rfl⟩

theorem captureEdFile_not_created (h : ¬ Created w cwd name) :
    captureEdFile w cwd (name, .file content) = cwd := by
  simp only [captureEdFile, copyFile]
  cases hopen : (w.copies name).openSrc with
  | some e => rfl
  | none =>
    cases hcreate : createError (w.copies name) cwd (edName name) with
    | some e => rfl
    | none =>
      refine absurd ⟨hopen, ?_, ?_⟩ h
      · rw [createError] at hcreate
        split at hcreate
        · cases hcreate
        · exact hcreate
      · intro hdir
        rw [createError, if_pos ((isDirB_iff _ _).mpr hdir)] at hcreate
        cases hcreate

theorem isDir_captureEdFile (entry : GoString × Entry) (other : GoString) :
    IsDir (captureEdFile w cwd entry) other ↔ IsDir cwd other := by
  obtain ⟨name, entry⟩ := entry
  cases entry with
  | dir => exact Iff.rfl
  | file content =>
    by_cases h : Created w cwd name
    · obtain ⟨c, hc⟩ := captureEdFile_created content h
      rw [hc, isDir_write h.notDir]
    · rw [captureEdFile_not_created h]

theorem isFile_captureEdFile (other : GoString) :
    IsFile (captureEdFile w cwd (name, .file content)) other ↔
      IsFile cwd other ∨ other = edName name ∧ Created w cwd name := by
  by_cases h : Created w cwd name
  · obtain ⟨c, hc⟩ := captureEdFile_created content h
    rw [hc, isFile_write, or_comm, and_iff_left h]
  · rw [captureEdFile_not_created h]
    exact (or_iff_left fun hcreated => h hcreated.2).symm

theorem created_congr {d : Dir} (h : ∀ other, IsDir d other ↔ IsDir cwd other) :
    Created w d name ↔ Created w cwd name := by
  constructor
  · intro hc
    exact ⟨hc.openSrc, hc.createDst, fun hdir => hc.notDir ((h _).mpr hdir)⟩
  · intro hc
    exact ⟨hc.openSrc, hc.createDst, fun hdir => hc.notDir ((h _).mp hdir)⟩

/-- After the copies there are the files that were there, and those of the entries. -/
theorem isFile_foldl (entries : List (GoString × Entry)) (cwd : Dir) (other : GoString) :
    IsFile (entries.foldl (captureEdFile w) cwd) other ↔
      IsFile cwd other ∨
        ∃ name content, (name, Entry.file content) ∈ entries ∧ other = edName name ∧
          Created w cwd name := by
  induction entries generalizing cwd with
  | nil => simp
  | cons entry entries ih =>
    have hcreated (name : GoString) :
        Created w (captureEdFile w cwd entry) name ↔ Created w cwd name :=
      created_congr (isDir_captureEdFile entry)
    rw [List.foldl_cons, ih]
    simp only [hcreated, List.mem_cons]
    obtain ⟨n, entry⟩ := entry
    cases entry with
    | dir => simp [captureEdFile]
    | file c =>
      rw [isFile_captureEdFile, or_assoc]
      refine or_congr_right ?_
      constructor
      · rintro (⟨hother, hn⟩ | ⟨name, content, hmem, hrest⟩)
        · exact ⟨n, c, Or.inl rfl, hother, hn⟩
        · exact ⟨name, content, Or.inr hmem, hrest⟩
      · rintro ⟨name, content, heq | hmem, hrest⟩
        · obtain ⟨rfl, -⟩ := Prod.mk.inj heq
          exact Or.inl hrest
        · exact Or.inr ⟨name, content, hmem, hrest⟩

theorem captureEdFiles_ok {folder : Dir} (h : w.readFolder = none) :
    captureEdFiles w folder cwd = .ok (folder.files.foldl (captureEdFile w) cwd) := by
  simp only [captureEdFiles, h]
  split
  · rename_i hempty
    rw [List.length_eq_zero_iff.mp hempty]
    rfl
  · rfl

end Copies

/-! ## The counters -/

section Upload

variable {o : Options} {endpoint : GoString} {w : World}

/-- The counters and the error say what the attempts were. -/
structure Counted (s : Uploads) : Prop where
  success : s.successCount = s.attempts.countP Attempt.ok
  fail : s.failCount = s.attempts.countP fun a => !a.ok
  lastError : s.lastError = none ↔ s.failCount = 0

variable (o endpoint w) in
/-- The attempt for an entry, if there is one. -/
def tried (entry : GoString × Entry) : Option Attempt :=
  match entry.2 with
  | .dir => none
  | .file content =>
    if hasPrefix entry.1 (str "ed-") = false then none
    else some (attempt o endpoint w entry.1 content)

theorem attempts_uploadEntry (s : Uploads) (entry : GoString × Entry) :
    (uploadEntry o endpoint w s entry).attempts =
      s.attempts ++ (tried o endpoint w entry).toList := by
  unfold uploadEntry tried
  split
  · exact (List.append_nil _).symm
  · split
    · exact (List.append_nil _).symm
    · split
      · rename_i hattempt
        rw [hattempt]
        rfl
      · rename_i hattempt
        rw [hattempt]
        dsimp only
        split <;> rfl

theorem counted_uploadEntry {s : Uploads} (h : Counted s) (entry : GoString × Entry) :
    Counted (uploadEntry o endpoint w s entry) := by
  unfold uploadEntry
  split
  · exact h
  · split
    · exact h
    · split
      · constructor
        · simp [h.success, Attempt.ok]
        · simp [h.fail, Attempt.ok]
        · simp
      · rename_i answer hattempt
        dsimp only
        split
        · rename_i hok
          constructor
          · simp [h.success, Attempt.ok, hok]
          · simp [h.fail, Attempt.ok, hok]
          · exact h.lastError
        · rename_i hok
          constructor
          · simp [h.success, Attempt.ok, hok]
          · simp [h.fail, Attempt.ok, hok]
          · simp

theorem foldl_uploadEntry (entries : List (GoString × Entry)) {s : Uploads} (h : Counted s) :
    Counted (entries.foldl (uploadEntry o endpoint w) s) ∧
      (entries.foldl (uploadEntry o endpoint w) s).attempts =
        s.attempts ++ entries.filterMap (tried o endpoint w) := by
  induction entries generalizing s with
  | nil => exact ⟨h, (List.append_nil _).symm⟩
  | cons entry entries ih =>
    obtain ⟨hcounted, hattempts⟩ := ih (counted_uploadEntry h entry)
    refine ⟨hcounted, ?_⟩
    rw [List.foldl_cons, hattempts, attempts_uploadEntry, List.append_assoc, List.filterMap_cons]
    cases tried o endpoint w entry <;> rfl

theorem agrees_summary {s : Uploads} (h : Counted s) :
    Outcome.Agrees ⟨s.attempts, (summary s.successCount s.failCount s.lastError).1,
      (summary s.successCount s.failCount s.lastError).2⟩ := by
  have hsuccess : s.attempts.countP Attempt.ok = s.successCount := h.success.symm
  have hfail : s.attempts.countP (fun a => !a.ok) = s.failCount := h.fail.symm
  constructor
  all_goals simp only [Outcome.succeeded, Outcome.failed, hsuccess, hfail, summary]
  · intro hpos
    rw [if_pos hpos]
  · intro hfail hsuccess
    rw [if_neg (by omega), if_pos hsuccess]
  · intro hfail hsuccess
    rw [if_neg (by omega), if_neg (by omega)]
  · by_cases hpos : s.failCount > 0
    · rw [if_pos hpos]
      intro hok
      exact ⟨hpos, by simpa using hok⟩
    · rw [if_neg hpos]
      split <;> exact nofun
  · by_cases hpos : s.failCount > 0
    · rw [if_pos hpos]
      exact h.lastError
    · rw [if_neg hpos]
      split <;> exact iff_of_true rfl (by omega)

/-- Where the working directory can be read, the outcome is that of its entries in order. -/
theorem uploadCapturedFiles_spec (hread : w.readCwd = none) (cwd : Dir) :
    (uploadCapturedFiles o endpoint w cwd).attempts =
        cwd.files.filterMap (tried o endpoint w) ∧
      (uploadCapturedFiles o endpoint w cwd).Agrees := by
  have hzero : Counted ⟨[], 0, 0, none⟩ := ⟨rfl, rfl, iff_of_true rfl rfl⟩
  obtain ⟨hcounted, hattempts⟩ :
      Counted (cwd.files.foldl (uploadEntry o endpoint w) ⟨[], 0, 0, none⟩) ∧ _ :=
    foldl_uploadEntry cwd.files hzero
  have heq : uploadCapturedFiles o endpoint w cwd =
      let s := cwd.files.foldl (uploadEntry o endpoint w) ⟨[], 0, 0, none⟩
      ⟨s.attempts, (summary s.successCount s.failCount s.lastError).1,
        (summary s.successCount s.failCount s.lastError).2⟩ := by
    rw [uploadCapturedFiles, hread]
  rw [heq]
  exact ⟨hattempts, agrees_summary hcounted⟩

theorem not_agrees_of_error (msg e : GoString) :
    ¬ Outcome.Agrees ⟨[], ⟨msg, false⟩, some e⟩ := by
  intro h
  exact absurd (h.notOk rfl).1 (Nat.lt_irrefl 0)

/-! ## What is posted -/

variable (o endpoint w) in
def posted (entry : GoString × Entry) : Option (GoString × GoString) :=
  (tried o endpoint w entry).bind Attempt.post?

theorem posted_eq_some_iff {name : GoString} {entry : Entry} {p : GoString × GoString} :
    posted o endpoint w (name, entry) = some p ↔
      p = (name, uploadData name) ∧ (∃ content, entry = .file content) ∧ str "ed-" <+: name ∧
        w.opens name = none := by
  cases entry with
  | dir => simp [posted, tried]
  | file content =>
    by_cases hprefix : str "ed-" <+: name
    · have hb : hasPrefix name (str "ed-") = true := (hasPrefix_iff _ _).mpr hprefix
      cases hopen : w.opens name with
      | some e => simp [posted, tried, hb, attempt, hopen, Attempt.post?]
      | none => simp [posted, tried, hb, attempt, hopen, Attempt.post?, hprefix, eq_comm]
    · have hb : hasPrefix name (str "ed-") = false := by
        rw [Bool.eq_false_iff]
        exact fun h => hprefix ((hasPrefix_iff _ _).mp h)
      simp [posted, tried, hb, hprefix]

theorem mem_posted {d : Dir} {p : GoString × GoString} :
    p ∈ d.files.filterMap (posted o endpoint w) ↔
      p.2 = uploadData p.1 ∧ IsFile d p.1 ∧ str "ed-" <+: p.1 ∧ w.opens p.1 = none := by
  rw [List.mem_filterMap]
  constructor
  · rintro ⟨⟨name, entry⟩, hmem, hposted⟩
    obtain ⟨rfl, ⟨content, rfl⟩, hprefix, hopen⟩ := posted_eq_some_iff.mp hposted
    exact ⟨rfl, ⟨content, hmem⟩, hprefix, hopen⟩
  · rintro ⟨hdata, ⟨content, hmem⟩, hprefix, hopen⟩
    refine ⟨_, hmem, posted_eq_some_iff.mpr ⟨?_, ⟨content, rfl⟩, hprefix, hopen⟩⟩
    exact Prod.ext rfl hdata

theorem nodup_posted (d : Dir) :
    ((d.files.filterMap (posted o endpoint w)).map Prod.fst).Nodup := by
  have hsorted : (d.files.filterMap (posted o endpoint w)).Pairwise fun p q => p.1 < q.1 := by
    refine List.pairwise_filterMap.mpr (d.sorted.imp ?_)
    rintro ⟨f, entry⟩ ⟨g, entry'⟩ hlt p hp q hq
    rw [(posted_eq_some_iff.mp hp).1, (posted_eq_some_iff.mp hq).1]
    exact hlt
  exact List.pairwise_map.mpr (hsorted.imp ne_of_lt)

theorem nodup_regular (d : Dir) : (regular d).Nodup := by
  refine List.pairwise_filterMap.mpr (d.sorted.imp ?_)
  rintro ⟨f, entry⟩ ⟨g, entry'⟩ hlt p hp q hq
  cases entry with
  | dir => cases hp
  | file c =>
    cases entry' with
    | dir => cases hq
    | file c' =>
      rw [← Option.some.inj hp, ← Option.some.inj hq]
      exact ne_of_lt hlt

theorem edName_inj {f g : GoString} (h : edName f = edName g) : f = g := List.append_cancel_left h

/-- The files that are posted are those of the folder. -/
theorem oneEach_iff (folder d : Dir) :
    ((d.files.filterMap (posted o endpoint w)).map Prod.fst).Perm
        ((regular folder).map edName) ↔
      ∀ name, IsFile folder name ↔ IsFile d (edName name) ∧ w.opens (edName name) = none := by
  have hregular : ((regular folder).map edName).Nodup :=
    (nodup_regular folder).map fun _ _ => edName_inj
  have hmem (other : GoString) :
      other ∈ (d.files.filterMap (posted o endpoint w)).map Prod.fst ↔
        IsFile d other ∧ str "ed-" <+: other ∧ w.opens other = none := by
    constructor
    · intro h
      obtain ⟨p, hp, rfl⟩ := List.mem_map.mp h
      exact (mem_posted.mp hp).2
    · intro h
      exact List.mem_map.mpr ⟨(other, uploadData other), mem_posted.mpr ⟨rfl, h⟩, rfl⟩
  rw [List.perm_ext_iff_of_nodup (nodup_posted d) hregular]
  simp only [hmem, List.mem_map, mem_regular]
  constructor
  · intro h name
    constructor
    · intro hfile
      obtain ⟨hd, -, hopen⟩ := (h (edName name)).mpr ⟨name, hfile, rfl⟩
      exact ⟨hd, hopen⟩
    · intro ⟨hd, hopen⟩
      obtain ⟨n, hn, heq⟩ := (h (edName name)).mp ⟨hd, List.prefix_append _ _, hopen⟩
      exact edName_inj heq ▸ hn
  · intro h other
    constructor
    · rintro ⟨hd, ⟨name, rfl⟩, hopen⟩
      exact ⟨name, (h name).mpr ⟨hd, hopen⟩, rfl⟩
    · rintro ⟨name, hfile, rfl⟩
      obtain ⟨hd, hopen⟩ := (h name).mp hfile
      exact ⟨hd, List.prefix_append _ _, hopen⟩

end Upload

/-! ## Names that are told apart -/

theorem stem_append_ext (f : GoString) : stem f ++ ext f = f := trimSuffix_append_ext f

theorem fileExt_of_compressed {f : GoString} (h : AppLog.IsCompressed f) :
    AppLog.fileExt f = str "zip" ∨ AppLog.fileExt f = str "gz" := by
  obtain ⟨e, he, heq⟩ := List.any_eq_true.mp h
  rw [← eq_of_beq heq]
  simpa [AppLog.compressedFileExtensions] using he

theorem ext_of_compressed {f : GoString} (h : AppLog.IsCompressed f) :
    ext f = dot :: AppLog.fileExt f := by
  rcases ext_cases f with hext | ⟨e, hext, -⟩
  · have hempty : AppLog.fileExt f = [] := by
      rw [AppLog.fileExt, hext]
      rfl
    rcases fileExt_of_compressed h with hzip | hgz
    · rw [hempty] at hzip
      exact absurd hzip (by decide)
    · rw [hempty] at hgz
      exact absurd hgz (by decide)
  · have hfile : AppLog.fileExt f = e := by
      rw [AppLog.fileExt, hext, trimPrefix, if_pos (by simp [hasPrefix])]
      rfl
    rw [hext, hfile]

theorem uploadData_plain {f : GoString} (h : ¬ AppLog.IsCompressed f) :
    uploadData f = str "ed&fileName=" ++ stem f := if_neg h

theorem uploadData_compressed {f : GoString} (h : AppLog.IsCompressed f) :
    uploadData f =
      str "ed&fileName=" ++ (stem f ++ (str "&content-encoding=" ++ AppLog.fileExt f)) := by
  refine (if_pos h).trans ?_
  simp only [List.append_assoc]
  rfl

section Names

variable {front : GoString → Bool} {endpoint f g : GoString}

/-- What is posted behind the stem. -/
def encoding (f : GoString) : GoString :=
  if AppLog.IsCompressed f then
    Url.ampersand :: (str "content-encoding" ++ Url.equals :: AppLog.fileExt f)
  else []

theorem encoding_cases (f : GoString) :
    encoding f = [] ∨ ∃ e ∈ [str "zip", str "gz"],
      encoding f = Url.ampersand :: (str "content-encoding" ++ Url.equals :: e) := by
  unfold encoding
  split
  · rename_i hcompressed
    rcases fileExt_of_compressed hcompressed with hext | hext
    · exact Or.inr ⟨_, List.mem_cons_self, by rw [hext]⟩
    · exact Or.inr ⟨_, List.mem_cons_of_mem _ List.mem_cons_self, by rw [hext]⟩
  · exact Or.inl rfl

theorem hash_not_mem_encoding (f : GoString) : Url.hash ∉ encoding f := by
  rcases encoding_cases f with h | ⟨e, he, h⟩
  · rw [h]
    exact List.not_mem_nil
  · have hall : ∀ e ∈ [str "zip", str "gz"],
        Url.hash ∉ Url.ampersand :: (str "content-encoding" ++ Url.equals :: e) := by decide
    rw [h]
    exact hall e he

theorem isCTL_encoding (f : GoString) : (encoding f).any Url.isCTL = false := by
  rcases encoding_cases f with h | ⟨e, he, h⟩
  · rw [h]
    rfl
  · have hall : ∀ e ∈ [str "zip", str "gz"],
        (Url.ampersand :: (str "content-encoding" ++ Url.equals :: e)).any Url.isCTL = false := by
      decide
    rw [h]
    exact hall e he

theorem isSome_queryUnescape_encoding (s f : GoString) :
    (Url.queryUnescape (s ++ encoding f)).isSome = (Url.queryUnescape s).isSome := by
  rcases encoding_cases f with h | ⟨e, he, h⟩
  · rw [h, List.append_nil]
  · have hhex : Url.unhex Url.ampersand = none ∧ Url.ampersand ≠ Url.percent := by decide
    have hrest : ∀ e ∈ [str "zip", str "gz"],
        (Url.queryUnescape (str "content-encoding" ++ Url.equals :: e)).isSome = true := by decide
    rw [h, Url.isSome_queryUnescape_append hhex.1 hhex.2, hrest e he, Bool.and_true]

theorem address_eq (endpoint f : GoString) :
    address endpoint (uploadData f) =
      endpoint ++ Url.ampersand :: (str "dt=ed&fileName=" ++ (stem f ++ encoding f)) := by
  have hamp : str "&" = [Url.ampersand] := by decide
  have hdt : str "dt=ed&fileName=" = str "dt=" ++ str "ed&fileName=" := by decide
  have hdata : uploadData f = str "ed&fileName=" ++ (stem f ++ encoding f) := by
    have hkey : str "&content-encoding=" =
        Url.ampersand :: (str "content-encoding" ++ [Url.equals]) := by decide
    unfold encoding
    by_cases hcompressed : AppLog.IsCompressed f
    · rw [uploadData_compressed hcompressed, if_pos hcompressed, hkey]
      simp only [List.append_assoc, List.cons_append, List.nil_append]
    · rw [uploadData_plain hcompressed, if_neg hcompressed, List.append_nil]
  rw [address, hdata, hamp, hdt]
  simp only [List.append_assoc, List.cons_append, List.nil_append]

theorem cut_uploaded (f : GoString) :
    Url.cut (str "dt=ed&fileName=" ++ (stem f ++ encoding f)) Url.hash =
      if Url.hash ∈ stem f then
        (str "dt=ed&fileName=" ++ (Url.cut (stem f) Url.hash).1,
          (Url.cut (stem f) Url.hash).2 ++ encoding f)
      else (str "dt=ed&fileName=" ++ (stem f ++ encoding f), []) := by
  have hfront : Url.hash ∉ str "dt=ed&fileName=" := by decide
  rw [Url.cut_append_right hfront]
  by_cases hhash : Url.hash ∈ stem f
  · rw [Url.cut_append_left hhash, if_pos hhash]
  · have hwhole : Url.hash ∉ stem f ++ encoding f := fun hmem =>
      (List.mem_append.mp hmem).elim hhash (hash_not_mem_encoding f)
    rw [Url.cut_of_not_mem hwhole, if_neg hhash]

/-- The parameters in front of the name and the one behind it make no difference to whether an
address is read. -/
theorem appendable_iff (endpoint f : GoString) :
    Url.Appendable endpoint (str "dt=ed&fileName=" ++ (stem f ++ encoding f)) ↔
      Url.Appendable endpoint (stem f) := by
  unfold Url.Appendable
  by_cases hhash : Url.hash ∈ endpoint
  · have hfront : str "dt=ed&fileName=" = str "dt=ed&fileName" ++ [Url.equals] := by decide
    have hhex : Url.unhex Url.equals = none ∧ Url.equals ≠ Url.percent := by decide
    have hread : (Url.queryUnescape (str "dt=ed&fileName")).isSome = true := by decide
    rw [if_pos hhash, if_pos hhash, hfront, List.append_assoc, List.singleton_append,
      Url.isSome_queryUnescape_append hhex.1 hhex.2, hread, Bool.true_and,
      isSome_queryUnescape_encoding]
  · have hctl : (str "dt=ed&fileName=").any Url.isCTL = false := by decide
    rw [if_neg hhash, if_neg hhash, cut_uploaded]
    by_cases hstem : Url.hash ∈ stem f
    · rw [if_pos hstem]
      dsimp only
      rw [List.any_append, hctl, Bool.false_or, isSome_queryUnescape_encoding]
    · rw [if_neg hstem, Url.cut_of_not_mem hstem]
      dsimp only
      rw [List.any_append, List.any_append, hctl, Bool.false_or, isCTL_encoding, Bool.or_false]

/-- What is read behind the parameters of the endpoint. -/
theorem parseQuery_spelled (f : GoString) :
    Url.parseQuery (Url.cut (str "dt=ed&fileName=" ++ (stem f ++ encoding f)) Url.hash).1 =
      (str "dt", str "ed") :: spelled f := by
  have hdt (text : GoString) : Url.parseQuery (str "dt=ed&fileName=" ++ text) =
      (str "dt", str "ed") :: Url.parseQuery (str "fileName" ++ Url.equals :: text) := by
    have hfront : str "dt=ed&fileName=" =
        (str "dt" ++ Url.equals :: str "ed") ++
          Url.ampersand :: (str "fileName" ++ [Url.equals]) := by decide
    have hed : Url.parseQuery (str "dt" ++ Url.equals :: str "ed") = [(str "dt", str "ed")] :=
      Url.parseQuery_param (by decide) (by decide)
    rw [hfront, List.append_assoc, List.cons_append, Url.parseQuery_append, hed]
    simp only [List.append_assoc, List.cons_append, List.nil_append]
  have hkey : Url.IsKey (str "fileName") := by decide
  rw [cut_uploaded, spelled]
  by_cases hstem : Url.hash ∈ stem f
  · have hnone : ¬ (AppLog.IsCompressed f ∧ Url.hash ∉ stem f) := fun h => h.2 hstem
    rw [if_pos hstem, hdt, Url.parseQuery_text hkey, if_neg hnone, List.append_nil]
  · rw [if_neg hstem, hdt, Url.cut_of_not_mem hstem, ← Url.parseQuery_text hkey, encoding]
    by_cases hcompressed : AppLog.IsCompressed f
    · have hvalue : Url.Literal (AppLog.fileExt f) := by
        rcases fileExt_of_compressed hcompressed with h | h <;> rw [h] <;> decide
      rw [if_pos hcompressed, if_pos ⟨hcompressed, hstem⟩, ← List.cons_append,
        ← List.append_assoc, Url.parseQuery_append, Url.parseQuery_param (by decide) hvalue]
    · rw [if_neg hcompressed, if_neg fun h => hcompressed h.1, List.append_nil, List.append_nil]

theorem parameters_eq (hquestion : Url.question ∈ endpoint) {q : List (GoString × GoString)}
    (hq : Url.query front endpoint = some q) (f : GoString) :
    parameters front endpoint (uploadData f) =
      if Url.Appendable endpoint (stem f) then
        some (parameterNames.map fun key => Url.values q key ++
          if Url.hash ∈ endpoint then [] else Url.values (spelled f) key)
      else none := by
  rw [parameters, address_eq, Url.query_append_text front hquestion hq, parseQuery_spelled]
  simp only [appendable_iff]
  split
  · rw [Option.map_some]
    refine congrArg some (List.map_congr_left fun key hkey => ?_)
    rw [Url.values_append]
    split
    · rfl
    · have hdt : ∀ key ∈ parameterNames, str "dt" ≠ key := by decide
      rw [Url.values, Url.values, List.filterMap_cons, if_neg (hdt key hkey)]
      rfl
  · rfl

/-- Two addresses are read as the same two parameters exactly if the names clash. -/
theorem clash_iff (hquestion : Url.question ∈ endpoint) :
    (∃ values, parameters front endpoint (uploadData f) = some values ∧
        parameters front endpoint (uploadData g) = some values) ↔ Clash front endpoint f g := by
  cases hparse : Url.parse front endpoint with
  | none =>
    refine iff_of_false ?_ fun h => ?_
    · rintro ⟨values, hf, -⟩
      obtain ⟨q, hq, -⟩ := Option.map_eq_some_iff.mp hf
      obtain ⟨raw, hraw, -⟩ := Option.map_eq_some_iff.mp hq
      have hsome := Url.isSome_parse_append front hquestion
        (str "dt=ed&fileName=" ++ (stem f ++ encoding f))
      rw [← address_eq, hraw, hparse] at hsome
      exact Bool.false_ne_true (hsome.mp rfl).1
    · have hserver := h.server
      rw [hparse] at hserver
      cases hserver
  | some raw =>
    have hq : Url.query front endpoint = some (Url.parseQuery raw) := by
      rw [Url.query, hparse, Option.map_some]
    rw [parameters_eq hquestion hq, parameters_eq hquestion hq]
    constructor
    · rintro ⟨values, hf, hg⟩
      split at hf
      · rename_i hfirst
        split at hg
        · rename_i hsecond
          refine ⟨by rw [hparse]; rfl, hfirst, hsecond, ?_⟩
          by_cases hhash : Url.hash ∈ endpoint
          · exact Or.inl hhash
          · refine Or.inr fun key hkey => ?_
            have hsame := List.map_inj_left.mp (Option.some.inj (hf.trans hg.symm)) key hkey
            rw [if_neg hhash, if_neg hhash] at hsame
            exact List.append_cancel_left hsame
        · cases hg
      · cases hf
    · intro h
      refine ⟨_, if_pos h.first, (if_pos h.second).trans ?_⟩
      refine congrArg some (List.map_congr_left fun key hkey => ?_)
      by_cases hhash : Url.hash ∈ endpoint
      · rw [if_pos hhash, if_pos hhash]
      · rw [if_neg hhash, if_neg hhash, h.same.resolve_left hhash key hkey]

theorem spelled_of_literal (hf : Url.Literal (stem f) ∧ Url.Clean (stem f)) :
    spelled f = (str "fileName", stem f) ::
      if AppLog.IsCompressed f then [(str "content-encoding", AppLog.fileExt f)] else [] := by
  have hread : Url.parseQuery [] = [] := rfl
  rw [spelled, Url.cut_of_not_mem hf.2.1]
  dsimp only
  rw [Url.cut_of_not_mem hf.1.1, if_neg hf.1.2.1, hf.1.queryUnescape, hread]
  simp only [hf.2.1, not_false_eq_true, and_true]
  rfl

theorem values_spelled_of_literal (hf : Url.Literal (stem f) ∧ Url.Clean (stem f)) :
    Url.values (spelled f) (str "fileName") = [stem f] ∧
      Url.values (spelled f) (str "content-encoding") =
        if AppLog.IsCompressed f then [AppLog.fileExt f] else [] := by
  have hkeys : str "content-encoding" ≠ str "fileName" := by decide
  rw [spelled_of_literal hf]
  by_cases hcompressed : AppLog.IsCompressed f
  · rw [if_pos hcompressed, if_pos hcompressed]
    simp [Url.values, hkeys, hkeys.symm]
  · rw [if_neg hcompressed, if_neg hcompressed]
    simp [Url.values, hkeys.symm]

/-- Of names whose bytes all stand for themselves, those of two plain files clash that differ in
the extension only. -/
theorem clash_iff_of_literal (hserver : (Url.parse front endpoint).isSome)
    (hhash : Url.hash ∉ endpoint) (hf : Url.Literal (stem f) ∧ Url.Clean (stem f))
    (hg : Url.Literal (stem g) ∧ Url.Clean (stem g)) (hne : f ≠ g) :
    Clash front endpoint f g ↔
      ¬ AppLog.IsCompressed f ∧ ¬ AppLog.IsCompressed g ∧ stem f = stem g := by
  have happend {s : GoString} (hs : Url.Literal s ∧ Url.Clean s) : Url.Appendable endpoint s := by
    rw [Url.Appendable, if_neg hhash, Url.cut_of_not_mem hs.2.1]
    exact ⟨hs.2.2, rfl⟩
  have hsame : (∀ key ∈ parameterNames, Url.values (spelled f) key = Url.values (spelled g) key) ↔
      ¬ AppLog.IsCompressed f ∧ ¬ AppLog.IsCompressed g ∧ stem f = stem g := by
    obtain ⟨hfname, hfencoding⟩ := values_spelled_of_literal hf
    obtain ⟨hgname, hgencoding⟩ := values_spelled_of_literal hg
    rw [parameterNames, List.forall_mem_cons, List.forall_mem_singleton, hfname, hfencoding,
      hgname, hgencoding, List.singleton_inj]
    by_cases hfc : AppLog.IsCompressed f <;> by_cases hgc : AppLog.IsCompressed g
    · rw [if_pos hfc, if_pos hgc, List.singleton_inj]
      refine iff_of_false (fun h => hne ?_) fun h => h.1 hfc
      rw [← stem_append_ext f, ← stem_append_ext g, ext_of_compressed hfc, ext_of_compressed hgc,
        h.1, h.2]
    · rw [if_pos hfc, if_neg hgc]
      exact iff_of_false (fun h => List.cons_ne_nil _ _ h.2) fun h => h.1 hfc
    · rw [if_neg hfc, if_pos hgc]
      exact iff_of_false (fun h => List.cons_ne_nil _ _ h.2.symm) fun h => h.2.1 hgc
    · rw [if_neg hfc, if_neg hgc]
      simp [hfc, hgc]
  constructor
  · intro h
    exact hsame.mp (h.same.resolve_left hhash)
  · intro h
    exact ⟨hserver, happend hf, happend hg, Or.inr (hsame.mpr h)⟩

end Names

/-! ## Which runs tell the files apart -/

section Upload

variable {front : GoString → Bool} {o : Options} {endpoint : GoString} {w : World}
  {folder cwd : Dir}

theorem runUploads_eq (h : w.readFolder = none) :
    runUploads o endpoint w folder cwd =
      uploadCapturedFiles o endpoint w (folder.files.foldl (captureEdFile w) cwd) := by
  rw [runUploads, captureEdFiles_ok h]

theorem readable_of_agrees (h : (runUploads o endpoint w folder cwd).Agrees) :
    w.readFolder = none ∧ w.readCwd = none := by
  have hfolder : w.readFolder = none := by
    cases hread : w.readFolder with
    | none => rfl
    | some e =>
      simp only [runUploads, captureEdFiles, hread] at h
      exact absurd h (not_agrees_of_error _ _)
  refine ⟨hfolder, ?_⟩
  rw [runUploads_eq hfolder] at h
  cases hread : w.readCwd with
  | none => rfl
  | some e =>
    simp only [uploadCapturedFiles, hread] at h
    exact absurd h (not_agrees_of_error _ _)

variable (o endpoint folder cwd) in
theorem posts_runUploads (hfolder : w.readFolder = none) (hcwd : w.readCwd = none) :
    (runUploads o endpoint w folder cwd).posts =
      (folder.files.foldl (captureEdFile w) cwd).files.filterMap (posted o endpoint w) := by
  rw [runUploads_eq hfolder, Outcome.posts, (uploadCapturedFiles_spec hcwd _).1,
    List.filterMap_filterMap]
  rfl

theorem isFile_captured (name : GoString) :
    IsFile (folder.files.foldl (captureEdFile w) cwd) (edName name) ↔
      IsFile cwd (edName name) ∨ IsFile folder name ∧ Created w cwd name := by
  rw [isFile_foldl]
  refine or_congr_right ?_
  constructor
  · rintro ⟨n, content, hmem, heq, hcreated⟩
    obtain rfl := edName_inj heq
    exact ⟨⟨content, hmem⟩, hcreated⟩
  · rintro ⟨⟨content, hmem⟩, hcreated⟩
    exact ⟨name, content, hmem, rfl, hcreated⟩

theorem distinguishes_of_separate (hquestion : Url.question ∈ endpoint)
    (h : Separate front endpoint w folder cwd) :
    (runUploads o endpoint w folder cwd).Distinguishes front endpoint folder := by
  have hposts := posts_runUploads o endpoint folder cwd h.readFolder h.readCwd
  have hfiles : ∀ name, IsFile folder name ↔
      IsFile (folder.files.foldl (captureEdFile w) cwd) (edName name) ∧
        w.opens (edName name) = none := by
    intro name
    rw [isFile_captured]
    constructor
    · intro hfile
      refine ⟨?_, h.opened name hfile⟩
      exact (h.copied name hfile).elim (fun hc => Or.inr ⟨hfile, hc⟩) Or.inl
    · rintro ⟨hcwd | ⟨hfile, -⟩, hopen⟩
      · exact h.noOther name hcwd hopen
      · exact hfile
  constructor
  · rw [hposts]
    exact (oneEach_iff folder _).mpr hfiles
  · rw [hposts]
    intro p hp q hq hne values hpvalues hqvalues
    obtain ⟨hpdata, hpfile, ⟨f, hf⟩, hpopen⟩ := mem_posted.mp hp
    obtain ⟨hqdata, hqfile, ⟨g, hg⟩, hqopen⟩ := mem_posted.mp hq
    have hpname : p.1 = edName f := hf.symm
    have hqname : q.1 = edName g := hg.symm
    rw [hpname] at hpfile hpopen hpdata hne
    rw [hqname] at hqfile hqopen hqdata hne
    rw [hpdata] at hpvalues
    rw [hqdata] at hqvalues
    refine h.apart f g ((hfiles f).mpr ⟨hpfile, hpopen⟩) ((hfiles g).mpr ⟨hqfile, hqopen⟩) ?_ ?_
    · rintro rfl
      exact hne rfl
    · exact (clash_iff hquestion).mp ⟨values, hpvalues, hqvalues⟩
  · rw [runUploads_eq h.readFolder]
    exact (uploadCapturedFiles_spec h.readCwd _).2

theorem separate_of_distinguishes (hquestion : Url.question ∈ endpoint)
    (h : (runUploads o endpoint w folder cwd).Distinguishes front endpoint folder) :
    Separate front endpoint w folder cwd := by
  obtain ⟨hfolder, hcwd⟩ := readable_of_agrees h.agrees
  have hposts := posts_runUploads o endpoint folder cwd hfolder hcwd
  have hone := h.oneEach
  rw [hposts, oneEach_iff] at hone
  refine ⟨hfolder, hcwd, ?_, ?_, ?_, ?_⟩
  · intro name hfile
    exact ((isFile_captured name).mp ((hone name).mp hfile).1).symm.imp_left And.right
  · intro name hfile
    exact ((hone name).mp hfile).2
  · intro name hfile hopen
    exact (hone name).mpr ⟨(isFile_captured name).mpr (Or.inl hfile), hopen⟩
  · intro f g hf hg hne hclash
    have hed : edName f ≠ edName g := fun heq => hne (edName_inj heq)
    have hmem (name : GoString) (hname : IsFile folder name) :
        (edName name, uploadData (edName name)) ∈ (runUploads o endpoint w folder cwd).posts := by
      obtain ⟨hfile, hopen⟩ := (hone name).mp hname
      rw [hposts]
      exact mem_posted.mpr ⟨rfl, hfile, List.prefix_append _ _, hopen⟩
    obtain ⟨values, hfvalues, hgvalues⟩ := (clash_iff hquestion).mpr hclash
    exact h.distinct _ (hmem f hf) _ (hmem g hg) hed values hfvalues hgvalues

/-- The uploads are told apart exactly if every file is copied and opened, no other file is posted
and no two names clash. -/
theorem distinguishes_iff (front : GoString → Bool) (o : Options) {endpoint : GoString}
    (hquestion : Url.question ∈ endpoint) (w : World) (folder cwd : Dir) :
    (runUploads o endpoint w folder cwd).Distinguishes front endpoint folder ↔
      Separate front endpoint w folder cwd :=
  ⟨separate_of_distinguishes hquestion, distinguishes_of_separate hquestion⟩

end Upload

/-- A run in which nothing fails. -/
def smooth : World :=
  ⟨none, fun _ => ⟨none, none, none⟩, none, fun _ => none,
    fun _ => ⟨none, none, none, none, none, 200, .ok []⟩⟩

/-- The address of the server, with the parameters of the capture. -/
def receiver : GoString := str "http://host/ycrash-receiver?ts=now"

theorem log_lt_zip : str "a.log" < str "a.zip" := by decide

/-- A plain and a compressed file with one stem. -/
def plainAndZip : Dir :=
  ⟨[(str "a.log", .file (str "x")), (str "a.zip", .file (str "y"))],
    List.pairwise_pair.mpr log_lt_zip⟩

theorem distinguishes_plainAndZip :
    (runUploads defaultOptions receiver smooth plainAndZip Listing.empty).Distinguishes
      (fun _ => true) receiver plainAndZip := by
  refine (distinguishes_iff (fun _ => true) defaultOptions (by decide) smooth _ _).mpr ?_
  have hnames : ∀ name, IsFile plainAndZip name → name ∈ [str "a.log", str "a.zip"] := by
    rintro name ⟨content, hmem⟩
    exact List.mem_map_of_mem (f := Prod.fst) hmem
  have hnone : ∀ f, f ∉ (Listing.empty : Dir).files := fun _ => List.not_mem_nil
  refine ⟨rfl, rfl, fun name _ => Or.inl ⟨rfl, rfl, hnone _⟩, fun _ _ => rfl,
    fun name h => absurd h.choose_spec (hnone _), fun f g hf hg hne hclash => ?_⟩
  have hliteral : ∀ name ∈ [str "a.log", str "a.zip"],
      Url.Literal (stem (edName name)) ∧ Url.Clean (stem (edName name)) := by decide
  have hplain : ∀ f ∈ [str "a.log", str "a.zip"], ∀ g ∈ [str "a.log", str "a.zip"], f ≠ g →
      AppLog.IsCompressed (edName f) ∨ AppLog.IsCompressed (edName g) := by decide
  obtain ⟨hfplain, hgplain, -⟩ := (clash_iff_of_literal (by decide) (by decide)
    (hliteral f (hnames f hf)) (hliteral g (hnames g hg)) fun h => hne (edName_inj h)).mp hclash
  exact (hplain f (hnames f hf) g (hnames g hg) hne).elim hfplain hgplain

theorem log_lt_txt : str "a.log" < str "a.txt" := by decide

/-- Two plain files with one stem. -/
def twoFiles : Dir :=
  ⟨[(str "a.log", .file (str "x")), (str "a.txt", .file (str "y"))],
    List.pairwise_pair.mpr log_lt_txt⟩

theorem not_distinguishes_twoFiles :
    ¬ (runUploads defaultOptions receiver smooth twoFiles Listing.empty).Distinguishes
      (fun _ => true) receiver twoFiles := by
  intro h
  refine (separate_of_distinguishes (by decide) h).apart (str "a.log") (str "a.txt")
    ⟨str "x", by simp [twoFiles]⟩ ⟨str "y", by simp [twoFiles]⟩ (by decide) ?_
  refine (clash_iff_of_literal ?_ ?_ ?_ ?_ ?_).mpr ?_
  all_goals decide

end YcAgent.Capture.ExtendedData
