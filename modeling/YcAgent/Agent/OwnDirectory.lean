import YcAgent.Agent.Restore

/-!
# The directory that a capture removes

`FullCapture` makes its directory outside M3 mode only, and removes it wherever `DeferDelete` is
set. Its name is made of the time in seconds, so in M3 mode what it removes is whatever has that
name, such as the directory of the cycle around it. Outside M3 mode it is the one that the call
made, unless the way back fails and the name is read from inside that one.
-/
namespace YcAgent.Agent.Restore

open Go Defer

variable {L : Type*}

/-- A process whose directories all have those above them. -/
structure Site (L : Type*) extends Process L where
  rooted : place.disk.Rooted

section Spec

variable (output : L → LogFile → L) (o : Options) (w : CaptureWorld)

/-- Every directory that was there before the call is there behind it, so that what it removed it
had made. -/
def RemovesOwn (site : Site L) : Prop :=
  ∃ r, fullCapture output o w site.toProcess = some r ∧
    Disk.Kept site.place.disk r.process.place.disk

/-- The directory is to be removed, and that goes through. -/
def Cleans : Prop := (o .deferDelete : Bool) = true ∧ w.removeAll = true

/-- In M3 mode the name of the capture directory names one that is there. -/
def ClashesInM3 (place : WorkDir) : Prop :=
  (o .m3 : Bool) = true ∧ place.target (captureDir o w.timestamp) ≠ none

/-- The directory is made and entered, the way back fails, and from inside the name is that of a
directory that was there. -/
def ClashesInside (place : WorkDir) : Prop :=
  (o .m3 : Bool) = false ∧ w.mkdir = true ∧ w.getwd = true ∧ w.chdir = true ∧
    w.chdirBack = false ∧ place.mkdir (captureDir o w.timestamp) ≠ none ∧
    ∃ here, place.getwd = some here ∧
      place.disk.lookup (resolve (resolve here (captureDir o w.timestamp))
        (captureDir o w.timestamp)) ≠ none

end Spec

/-! ## Where a call leaves the directories -/

section Place

variable {output : L → LogFile → L} {o : Options} {w : CaptureWorld} {r r' : Running L}
  {ds : Deferred (Running L)}

/-- Behind the way back. -/
def back (w : CaptureWorld) (dir : DirPath) (place : WorkDir) : WorkDir :=
  if w.chdirBack then (place.chdirTo dir).getD place else place

/-- Behind the removal. -/
def cleaned (o : Options) (w : CaptureWorld) (place : WorkDir) : WorkDir :=
  let deferDelete : Bool := o .deferDelete
  if deferDelete && w.removeAll then place.removeAll (captureDir o w.timestamp) else place

theorem place_startWritingToFile (output : L → LogFile → L) (w : CaptureWorld) (r : Running L) :
    (startWritingToFile output w r).process.place = r.process.place := by
  unfold startWritingToFile
  split <;> rfl

theorem place_stopWritingToFile (h : stopWritingToFile w r = some r') :
    r'.process.place = r.process.place := by
  unfold stopWritingToFile at h
  split at h
  · cases h
  · rw [← Option.some.inj h]
    dsimp only
    split <;> rfl

theorem place_stopLog (h : stopLog w r = some r') : r'.process.place = r.process.place := by
  unfold stopLog at h
  split at h
  · rw [Option.some.inj h]
  · exact place_stopWritingToFile h

theorem place_zipFolder (w : CaptureWorld) (r : Running L) :
    (zipFolder w r).process.place = r.process.place := by
  unfold zipFolder
  split
  · dsimp only
    split <;> rfl
  · rfl

theorem place_chdirBack {dir : DirPath} (h : chdirBack o w dir r = some r') :
    r'.process.place = back w dir r.process.place := by
  unfold chdirBack at h
  unfold back
  dsimp only at h
  cases hback : w.chdirBack with
  | false =>
    rw [hback, if_neg Bool.false_ne_true] at h
    rw [if_neg Bool.false_ne_true, ← Option.some.inj h]
    rfl
  | true =>
    rw [hback, if_pos rfl] at h
    rw [if_pos rfl]
    cases hplace : r.process.place.chdirTo dir with
    | none =>
      rw [hplace] at h
      rw [← Option.some.inj h]
      rfl
    | some place =>
      rw [hplace] at h
      rw [← Option.some.inj h]
      split
      · exact place_zipFolder w _
      · rfl

theorem place_removals (h : unwind (removals o w) r = some r') :
    r'.process.place = cleaned o w r.process.place := by
  unfold removals at h
  unfold cleaned
  dsimp only at h ⊢
  cases hdelete : (o .deferDelete : Bool) with
  | false =>
    rw [hdelete, if_neg Bool.false_ne_true] at h
    rw [Bool.false_and, if_neg Bool.false_ne_true, Option.some.inj h]
  | true =>
    rw [hdelete, if_pos rfl, unwind] at h
    obtain ⟨r₁, hremoval, hrest⟩ := Option.bind_eq_some_iff.mp h
    rw [← Option.some.inj hrest, Bool.true_and]
    unfold removal at hremoval
    dsimp only at hremoval
    split at hremoval
    · rename_i hremove
      rw [if_pos hremove]
      unfold wgDone at hremoval
      split at hremoval
      · cases hremoval
      · rw [← Option.some.inj hremoval]
    · rename_i hremove
      rw [if_neg hremove]
      unfold wgDone at hremoval
      split at hremoval
      · cases hremoval
      · rw [← Option.some.inj hremoval]
        rfl

theorem place_results (results : List Bool) (r : Running L) :
    (results.foldl (fun r ok => r.log (.result ok)) r).process.place = r.process.place := by
  induction results generalizing r with
  | nil => rfl
  | cons ok results ih => exact ih (r.log (.result ok))

/-- The body of a call leaves the directories to the deferred calls. -/
theorem unwind_of_captureBody (h : captureBody o w ds r = some r') :
    ∃ r₁, r₁.process.place = r.process.place ∧ unwind ds r₁ = some r' := by
  unfold captureBody at h
  dsimp only at h
  have hresults : (w.results.foldl (fun r ok => r.log (.result ok))
      (r.log (.metaInfo w.metaInfo))).process.place = r.process.place := place_results _ _
  generalize w.results.foldl _ _ = r₁ at h hresults
  split at h
  · exact ⟨r₁, hresults, h⟩
  · have hfin : (if w.fin then r₁ else r₁.log .finErr).process.place = r.process.place := by
      split
      · exact hresults
      · exact hresults
    generalize (if w.fin then r₁ else r₁.log .finErr) = r₂ at h hfin
    split at h
    · exact ⟨r₂, hfin, h⟩
    · obtain ⟨r₃, hstop, hrest⟩ := Option.bind_eq_some_iff.mp h
      exact ⟨Running.log (.agentLog w.upload) { r₃ with agentLogFile := none },
        (place_stopWritingToFile hstop).trans hfin, hrest⟩

theorem unwind_of_captureIn (h : captureIn output o w ds r = some r') :
    ∃ r₁, r₁.process.place = r.process.place ∧ unwind ds r₁ = some r' := by
  unfold captureIn at h
  dsimp only at h
  split at h
  · exact unwind_of_captureBody h
  · obtain ⟨r₁, hplace, hunwind⟩ := unwind_of_captureBody h
    obtain ⟨r₂, hstop, hrest⟩ := Option.bind_eq_some_iff.mp hunwind
    refine ⟨r₂, ?_, hrest⟩
    rw [place_stopLog hstop, hplace, place_startWritingToFile]

/-- Where a call leaves the directories: the removal comes behind the way back. -/
def finalPlace (o : Options) (w : CaptureWorld) (p : Process L) : WorkDir :=
  match makeDir o w p with
  | none => p.place
  | some place =>
    match enterDir o w place with
    | none => cleaned o w place
    | some (dir, place) => cleaned o w (back w dir place)

theorem place_fullCapture {p : Process L} (h : fullCapture output o w p = some r) :
    r.process.place = finalPlace o w p := by
  unfold fullCapture at h
  unfold finalPlace
  cases hmade : makeDir o w p with
  | none =>
    rw [hmade] at h
    rw [← Option.some.inj h]
  | some place =>
    rw [hmade] at h
    dsimp only at h ⊢
    cases hentered : enterDir o w place with
    | none =>
      rw [hentered] at h
      exact place_removals h
    | some entered =>
      obtain ⟨dir, place'⟩ := entered
      rw [hentered] at h
      obtain ⟨r₁, hplace, hunwind⟩ := unwind_of_captureIn h
      obtain ⟨r₂, hback, hremovals⟩ := Option.bind_eq_some_iff.mp hunwind
      dsimp only
      rw [place_removals hremovals, place_chdirBack hback, hplace]

end Place

/-! ## What it takes along -/

section Kept

variable {o : Options} {w : CaptureWorld} {d : Disk}

theorem cleaned_of_cleans (h : Cleans o w) (place : WorkDir) :
    cleaned o w place = place.removeAll (captureDir o w.timestamp) := by
  unfold cleaned
  dsimp only
  rw [h.1, h.2]
  rfl

theorem cleaned_of_not_cleans (h : ¬ Cleans o w) (place : WorkDir) : cleaned o w place = place := by
  unfold cleaned
  dsimp only
  split
  · rename_i hclean
    exact absurd ⟨(Bool.and_eq_true_iff.mp hclean).1, (Bool.and_eq_true_iff.mp hclean).2⟩ h
  · rfl

/-- What the removal keeps depends on what the name stands for. -/
theorem kept_cleaned_iff (hd : d.Rooted) {place : WorkDir} {path : DirPath}
    (hpath : place.resolved (captureDir o w.timestamp) = some path)
    (hkept : Disk.Kept d place.disk) :
    Disk.Kept d (cleaned o w place).disk ↔ ¬ (Cleans o w ∧ d.lookup path ≠ none) := by
  by_cases hcleans : Cleans o w
  · rw [cleaned_of_cleans hcleans, WorkDir.removeAll, hpath]
    dsimp only
    rw [Disk.kept_removeAll_iff hd hkept]
    simp only [hcleans, true_and, ne_eq, not_not]
  · rw [cleaned_of_not_cleans hcleans]
    exact iff_of_true hkept fun h => hcleans h.1

theorem cleaned_of_unresolved {place : WorkDir}
    (hpath : place.resolved (captureDir o w.timestamp) = none) : cleaned o w place = place := by
  by_cases hcleans : Cleans o w
  · rw [cleaned_of_cleans hcleans, WorkDir.removeAll, hpath]
  · exact cleaned_of_not_cleans hcleans place

end Kept

section Removes

variable {o : Options} {w : CaptureWorld} {site : Site L}

theorem removesOwn_iff_kept (output : L → LogFile → L) (o : Options) (w : CaptureWorld)
    (site : Site L) : RemovesOwn output o w site ↔
      Disk.Kept site.place.disk (finalPlace o w site.toProcess).disk := by
  obtain ⟨r, hr, -⟩ := fullCapture_back output o w site.toProcess
  unfold RemovesOwn
  constructor
  · rintro ⟨r', hr', hkept⟩
    rw [← place_fullCapture hr']
    exact hkept
  · intro hkept
    refine ⟨r, hr, ?_⟩
    rw [place_fullCapture hr]
    exact hkept

theorem kept_refl (d : Disk) : Disk.Kept d d := fun _ _ h => h

theorem makeDir_m3 (hm3 : (o .m3 : Bool) = true) (p : Process L) : makeDir o w p = some p.place :=
  if_pos hm3

theorem makeDir_of_not_m3 (hm3 : (o .m3 : Bool) = false) (p : Process L) :
    makeDir o w p =
      if w.mkdir then (p.place.mkdir (captureDir o w.timestamp)).map Prod.fst else none :=
  if_neg fun h => Bool.false_ne_true (hm3.symm.trans h)

theorem enterDir_m3 (hm3 : (o .m3 : Bool) = true) (place : WorkDir) :
    enterDir o w place = (if w.getwd then place.getwd else none).map fun dir => (dir, place) := by
  unfold enterDir
  dsimp only
  generalize (o .m3 : Bool) = m3 at hm3 ⊢
  subst hm3
  cases w.getwd with
  | false => rfl
  | true => cases place.getwd <;> rfl

theorem enterDir_of_not_m3 (hm3 : (o .m3 : Bool) = false) (place : WorkDir) :
    enterDir o w place = (if w.getwd then place.getwd else none).bind fun dir =>
      (if w.chdir then place.chdir (captureDir o w.timestamp) else none).map fun place =>
        (dir, place) := by
  unfold enterDir
  dsimp only
  generalize (o .m3 : Bool) = m3 at hm3 ⊢
  subst hm3
  rfl

/-- In M3 mode the name is read from where the call was made, and nothing is made before. -/
theorem kept_finalPlace_m3 (hm3 : (o .m3 : Bool) = true) :
    Disk.Kept site.place.disk (finalPlace o w site.toProcess).disk ↔
      ¬ (Cleans o w ∧ ClashesInM3 o w site.place) := by
  have hplace : finalPlace o w site.toProcess = cleaned o w site.place := by
    unfold finalPlace
    rw [makeDir_m3 hm3]
    dsimp only
    rw [enterDir_m3 hm3]
    cases hgetwd : (if w.getwd then site.place.getwd else none) with
    | none => rfl
    | some dir =>
      -- the way back leads to where the call is
      have hback : back w dir site.place = site.place := by
        have hlookup : site.place.disk.lookup dir = some site.place.cwd := by
          split at hgetwd
          · exact WorkDir.lookup_getwd hgetwd
          · cases hgetwd
        unfold back
        rw [WorkDir.chdirTo, hlookup]
        split <;> rfl
      exact congrArg (cleaned o w) hback
  rw [hplace]
  cases hpath : site.place.resolved (captureDir o w.timestamp) with
  | none =>
    have htarget : site.place.target (captureDir o w.timestamp) = none := by
      rw [WorkDir.target, hpath, Option.bind_none]
    rw [cleaned_of_unresolved hpath]
    exact iff_of_true (kept_refl _) fun h => h.2.2 htarget
  | some path =>
    have hclash : ClashesInM3 o w site.place ↔ site.place.disk.lookup path ≠ none := by
      rw [ClashesInM3, WorkDir.target, hpath, Option.bind_some]
      exact and_iff_right hm3
    rw [kept_cleaned_iff site.rooted hpath (kept_refl _), hclash]

/-- The removal of a new directory, by the name that it was made by. -/
theorem kept_cleaned_made {p place : WorkDir} {id : Nat} (hp : p.disk.Rooted)
    (hmade : p.mkdir (captureDir o w.timestamp) = some (place, id)) :
    Disk.Kept p.disk (cleaned o w place).disk := by
  obtain ⟨path, hpath, hdisk, -, -⟩ := WorkDir.mkdir_eq_some hmade
  rw [kept_cleaned_iff hp (WorkDir.resolved_mkdir hmade hpath)
    fun i q hq => Disk.pathOf_mkdir hdisk hq]
  exact fun h => h.2 (Disk.lookup_of_mkdir hdisk)

theorem back_fails (hback : w.chdirBack = false) (dir : DirPath) (place : WorkDir) :
    back w dir place = place := by
  unfold back
  rw [hback, if_neg Bool.false_ne_true]

theorem disk_back (w : CaptureWorld) (dir : DirPath) (place : WorkDir) :
    (back w dir place).disk = place.disk := by
  unfold back
  split
  · rw [WorkDir.chdirTo]
    cases place.disk.lookup dir <;> rfl
  · rfl

theorem enterDir_of_getwd_none {place : WorkDir} (h : place.getwd = none) :
    enterDir o w place = none := by
  unfold enterDir
  dsimp only
  rw [h, ite_self, Option.bind_none]

theorem disk_enterDir {place place' : WorkDir} {dir : DirPath}
    (h : enterDir o w place = some (dir, place')) : place'.disk = place.disk := by
  unfold enterDir at h
  dsimp only at h
  obtain ⟨here, -, h⟩ := Option.bind_eq_some_iff.mp h
  split at h
  · rw [← (Prod.mk.inj (Option.some.inj h)).2]
  · obtain ⟨entered, hentered, h⟩ := Option.map_eq_some_iff.mp h
    rw [← (Prod.mk.inj h).2]
    split at hentered
    · exact WorkDir.disk_chdir hentered
    · cases hentered

/-- A directory that was made by an absolute name is removed by it wherever the call is. -/
theorem kept_cleaned_rooted {p place place' : WorkDir} {id : Nat} (hp : p.disk.Rooted)
    (hmade : p.mkdir (captureDir o w.timestamp) = some (place, id))
    (hrooted : (captureDir o w.timestamp).head? = some slash)
    (hdisk' : place'.disk = place.disk) : Disk.Kept p.disk (cleaned o w place').disk := by
  obtain ⟨path, hpath, hdisk, -, -⟩ := WorkDir.mkdir_eq_some hmade
  rw [kept_cleaned_iff hp ((WorkDir.resolved_of_rooted hrooted place' p).trans hpath)
    (hdisk' ▸ fun i q hq => Disk.pathOf_mkdir hdisk hq)]
  exact fun h => h.2 (Disk.lookup_of_mkdir hdisk)

/-- Where the working directory was removed, the way in fails or the name is absolute. -/
theorem kept_unentered {p place : WorkDir} {id : Nat} (hp : p.disk.Rooted)
    (hmade : p.mkdir (captureDir o w.timestamp) = some (place, id)) (hhere : p.getwd = none) :
    Disk.Kept p.disk (match enterDir o w place with
      | none => cleaned o w place
      | some (dir, place) => cleaned o w (back w dir place)).disk := by
  cases hentered : enterDir o w place with
  | none => exact kept_cleaned_made hp hmade
  | some entered =>
    obtain ⟨dir, place'⟩ := entered
    by_cases hrooted : (captureDir o w.timestamp).head? = some slash
    · exact kept_cleaned_rooted hp hmade hrooted
        ((disk_back w dir place').trans (disk_enterDir hentered))
    · rw [enterDir_of_getwd_none (WorkDir.getwd_mkdir_none hmade hrooted hhere)] at hentered
      cases hentered

section Made

variable {p place : WorkDir} {id : Nat} {here : DirPath}
  (hmade : p.mkdir (captureDir o w.timestamp) = some (place, id)) (hhere : p.getwd = some here)

include hmade hhere in
theorem getwd_made : place.getwd = some here := by
  obtain ⟨path, -, hdisk, hcwd, -⟩ := WorkDir.mkdir_eq_some hmade
  rw [WorkDir.getwd, hcwd]
  exact Disk.pathOf_mkdir hdisk hhere

include hmade hhere in
theorem getwd_inside : WorkDir.getwd { place with cwd := id } =
    some (resolve here (captureDir o w.timestamp)) := by
  obtain ⟨path, hpath, -, -, hid⟩ := WorkDir.mkdir_eq_some hmade
  rw [← WorkDir.resolved_of_getwd hhere, hpath]
  exact hid

include hmade hhere in
theorem enterDir_made (hm3 : (o .m3 : Bool) = false) :
    enterDir o w place =
      if w.getwd && w.chdir then some (here, { place with cwd := id }) else none := by
  have hentered : place.chdir (captureDir o w.timestamp) = some { place with cwd := id } :=
    WorkDir.chdir_eq_some_iff.mpr ⟨id, WorkDir.target_mkdir hmade, rfl⟩
  rw [enterDir_of_not_m3 hm3, getwd_made hmade hhere, hentered]
  cases w.getwd with
  | false => rfl
  | true => cases w.chdir <;> rfl

include hmade hhere in
/-- The way back leads to where the call was made. -/
theorem back_made (hback : w.chdirBack = true) : back w here { place with cwd := id } = place := by
  unfold back
  rw [hback, if_pos rfl, WorkDir.chdirTo]
  show ((place.disk.lookup here).map _).getD _ = place
  rw [WorkDir.lookup_getwd (getwd_made hmade hhere)]
  rfl

include hmade hhere in
theorem clashesInside_iff (hm3 : (o .m3 : Bool) = false) (hmkdir : w.mkdir = true)
    (hgetwd : w.getwd = true) (hchdir : w.chdir = true) (hback : w.chdirBack = false) :
    ClashesInside o w p ↔
      p.disk.lookup (resolve (resolve here (captureDir o w.timestamp))
        (captureDir o w.timestamp)) ≠ none := by
  constructor
  · rintro ⟨-, -, -, -, -, -, here', hhere', hlookup⟩
    obtain rfl := Option.some.inj (hhere.symm.trans hhere')
    exact hlookup
  · intro hlookup
    have hsome : p.mkdir (captureDir o w.timestamp) ≠ none := by
      rw [hmade]
      exact Option.some_ne_none _
    exact ⟨hm3, hmkdir, hgetwd, hchdir, hback, hsome, here, hhere, hlookup⟩

include hmade hhere in
/-- From a directory that is there, the new one is removed by the name that it was made by, unless
the way back fails. -/
theorem kept_entered (hp : p.disk.Rooted) (hm3 : (o .m3 : Bool) = false)
    (hmkdir : w.mkdir = true) :
    Disk.Kept p.disk (match enterDir o w place with
      | none => cleaned o w place
      | some (dir, place) => cleaned o w (back w dir place)).disk ↔
      ¬ (Cleans o w ∧ ClashesInside o w p) := by
  have hown := kept_cleaned_made (o := o) hp hmade
  obtain ⟨path, -, hdisk, -, -⟩ := WorkDir.mkdir_eq_some hmade
  rw [enterDir_made hmade hhere hm3]
  cases hgetwd : w.getwd with
  | false => exact iff_of_true hown fun h => absurd (hgetwd.symm.trans h.2.2.2.1) (by decide)
  | true =>
    cases hchdir : w.chdir with
    | false => exact iff_of_true hown fun h => absurd (hchdir.symm.trans h.2.2.2.2.1) (by decide)
    | true =>
      rw [Bool.true_and, if_pos rfl]
      dsimp only
      cases hback : w.chdirBack with
      | true =>
        rw [back_made hmade hhere hback]
        exact iff_of_true hown fun h => absurd (hback.symm.trans h.2.2.2.2.2.1) (by decide)
      | false =>
        rw [back_fails hback, kept_cleaned_iff hp
          (WorkDir.resolved_of_getwd (getwd_inside hmade hhere) _)
          fun i q hq => Disk.pathOf_mkdir hdisk hq,
          clashesInside_iff hmade hhere hm3 hmkdir hgetwd hchdir hback]

end Made

/-- Outside M3 mode the name is read from where the call was made too, unless the way back
fails. -/
theorem kept_finalPlace_of_not_m3 (hm3 : (o .m3 : Bool) = false) :
    Disk.Kept site.place.disk (finalPlace o w site.toProcess).disk ↔
      ¬ (Cleans o w ∧ ClashesInside o w site.place) := by
  unfold finalPlace
  rw [makeDir_of_not_m3 hm3]
  cases hmkdir : w.mkdir with
  | false => exact iff_of_true (kept_refl _) fun h => absurd (hmkdir.symm.trans h.2.2.1) (by decide)
  | true =>
    rw [if_pos rfl]
    cases hmade : site.place.mkdir (captureDir o w.timestamp) with
    | none => exact iff_of_true (kept_refl _) fun h => h.2.2.2.2.2.2.1 hmade
    | some made =>
      obtain ⟨place, id⟩ := made
      rw [Option.map_some]
      dsimp only
      cases hhere : site.place.getwd with
      | none =>
        refine iff_of_true (kept_unentered site.rooted hmade hhere) fun h => ?_
        obtain ⟨here, hclash, -⟩ := h.2.2.2.2.2.2.2
        cases hhere.symm.trans hclash
      | some here => exact kept_entered hmade hhere site.rooted hm3 hmkdir

end Removes

/-! ## The cycle around a call -/

/-- A cycle of the same second, in the directory that it made under an absolute path, loses it to
a call inside it. -/
theorem cycle_loses {o : Options} {w : CaptureWorld} {before place : WorkDir} {id : Nat}
    (output : L → LogFile → L) (site : Site L) (hm3 : (o .m3 : Bool) = true) (hcleans : Cleans o w)
    (habs : (captureDir o w.timestamp).head? = some slash)
    (hmade : before.mkdir (captureDir o w.timestamp) = some (place, id))
    (hsite : site.place = { place with cwd := id }) : ¬ RemovesOwn output o w site := by
  intro h
  have htarget : site.place.target (captureDir o w.timestamp) = some id := by
    rw [hsite, WorkDir.target,
      WorkDir.resolved_of_rooted habs { place with cwd := id } place]
    exact WorkDir.target_mkdir hmade
  have hclash : ClashesInM3 o w site.place := by
    refine ⟨hm3, ?_⟩
    rw [htarget]
    exact Option.some_ne_none id
  rw [removesOwn_iff_kept, kept_finalPlace_m3 hm3] at h
  exact h ⟨hcleans, hclash⟩

/-- The agent in M3 mode, with directories in `/srv` that are removed. -/
def m3Stored : Options :=
  Function.update (Function.update (Function.update defaultOptions .m3 true) .deferDelete true)
    .storagePath (str "/srv")

/-- The capture in the second of the cycle. -/
def sameSecond : CaptureWorld where
  timestamp := str "2025-01-01T00-00-00"
  mkdir := true
  getwd := true
  chdir := true
  createLog := true
  closeLog := true
  metaInfo := true
  results := []
  fin := true
  upload := true
  chdirBack := true
  createZip := true
  walk := true
  removeAll := true

end YcAgent.Agent.Restore
