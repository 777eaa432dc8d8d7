import YcAgent.Base.WorkDir
import YcAgent.Config.Options

/-!
# A capture and its directory

`FullCapture` and `RunSingle` make a directory, work in it, go back and may remove it.
A step is one call into the system or one file created by a relative name; between two
steps of a capture other goroutines run, and the working directory is one for all of
them. The zip file of `OnlyCapture` is written after the return, next to the directory,
and is not one of the files in it.
-/
namespace YcAgent.Agent

open Go

/-- A file created by a relative name: the directory it went to, and the one that the
capture, or the cycle around it, had made. -/
structure File where
  name : GoString
  dir : Nat
  home : Option Nat

structure World where
  place : WorkDir
  files : List File

/-- Nothing can be created where the working directory was removed. -/
def World.write (w : World) (name : GoString) (home : Option Nat) : Option World :=
  w.place.getwd.map fun _ => { w with files := w.files ++ [⟨name, w.place.cwd, home⟩] }

/-- Every file is in the directory that its capture made. -/
def World.Lands (w : World) : Prop := ∀ file ∈ w.files, file.home = some file.dir

/-- What a goroutine does next: a step of a lock or of a capture. `call` is the system
call that is due, and `ret` the end of what a capture does in its directory. -/
inductive Op where
  | lock
  | enter (timestamp : GoString)
  | call (ok : Bool)
  | write (name : GoString)
  | fin
  | ret
  | unlock
  deriving DecidableEq

/-- The system call that is due; in `body` and `fin` none is. -/
inductive Stage where
  | mkdir | getwd | chdir | body | fin | chdirBack | remove
  deriving DecidableEq

/-- The variables of a capture: its directory, whether it makes and enters it, where it
came from, and the directory that it made or that was made for it. -/
structure Frame where
  captureDir : GoString
  makesDir : Bool
  stage : Stage
  dir : DirPath
  home : Option Nat

def captureDir (o : Options) (timestamp : GoString) : GoString :=
  let storagePath : GoString := o .storagePath
  let captureDir := str "yc-" ++ timestamp
  if 0 < storagePath.length then FilePath.joinPath [storagePath, captureDir] else captureDir

def Frame.enter (o : Options) (timestamp : GoString) (makesDir : Bool) (home : Option Nat) :
    Frame where
  captureDir := Agent.captureDir o timestamp
  makesDir := makesDir
  stage := if makesDir then .mkdir else .getwd
  dir := []
  home := home

/-- The deferred removal, behind every return past `os.Mkdir`. -/
def Frame.unwind (o : Options) (f : Frame) : Option Frame :=
  let deferDelete : Bool := o .deferDelete
  if deferDelete then some { f with stage := .remove } else none

def Frame.step (o : Options) (w : World) (f : Frame) (op : Op) : Option (World × Option Frame) :=
  match f.stage, op with
  | .mkdir, .call true => (w.place.mkdir f.captureDir).map fun r =>
      ({ w with place := r.1 }, some { f with stage := .getwd, home := some r.2 })
  | .mkdir, .call false => some (w, none)
  | .getwd, .call true => w.place.getwd.map fun dir =>
      (w, some { f with stage := if f.makesDir then .chdir else .body, dir := dir })
  | .chdir, .call true => (w.place.chdir f.captureDir).map fun place =>
      ({ w with place := place }, some { f with stage := .body })
  | .body, .write name => (w.write name f.home).map fun w' => (w', some f)
  | .body, .ret => some (w, some { f with stage := .chdirBack })
  | .fin, .ret => some (w, some { f with stage := .chdirBack })
  | .chdirBack, .call true => (w.place.chdirTo f.dir).map fun place =>
      ({ w with place := place }, f.unwind o)
  | .getwd, .call false => some (w, f.unwind o)
  | .chdir, .call false => some (w, f.unwind o)
  | .chdirBack, .call false => some (w, f.unwind o)
  | .remove, .call true => some ({ w with place := w.place.removeAll f.captureDir }, none)
  | .remove, .call false => some (w, none)
  | _, _ => none

/-- All that a step of a capture can do. -/
inductive Frame.Moves (o : Options) (w : World) (f : Frame) : World → Option Frame → Prop where
  | mkdir {place : WorkDir} {id : Nat} (hstage : f.stage = .mkdir)
      (hcall : w.place.mkdir f.captureDir = some (place, id)) :
      Moves o w f { w with place := place } (some { f with stage := .getwd, home := some id })
  | getwd {dir : DirPath} (hstage : f.stage = .getwd) (hcall : w.place.getwd = some dir) :
      Moves o w f w (some { f with stage := if f.makesDir then .chdir else .body, dir := dir })
  | chdir {place : WorkDir} (hstage : f.stage = .chdir)
      (hcall : w.place.chdir f.captureDir = some place) :
      Moves o w f { w with place := place } (some { f with stage := .body })
  | write {name : GoString} {w' : World} (hstage : f.stage = .body)
      (hcall : w.write name f.home = some w') : Moves o w f w' (some f)
  | ret (hstage : f.stage = .body ∨ f.stage = .fin) :
      Moves o w f w (some { f with stage := .chdirBack })
  | chdirBack {place : WorkDir} (hstage : f.stage = .chdirBack)
      (hcall : w.place.chdirTo f.dir = some place) :
      Moves o w f { w with place := place } (f.unwind o)
  | failed (hstage : f.stage = .getwd ∨ f.stage = .chdir ∨ f.stage = .chdirBack) :
      Moves o w f w (f.unwind o)
  | remove (hstage : f.stage = .remove) :
      Moves o w f { w with place := w.place.removeAll f.captureDir } none
  | ended (hstage : f.stage = .mkdir ∨ f.stage = .remove) : Moves o w f w none

theorem Frame.moves_of_step {o : Options} {w w' : World} {f : Frame} {f' : Option Frame} {op : Op}
    (h : f.step o w op = some (w', f')) : f.Moves o w w' f' := by
  unfold Frame.step at h
  split at h
  · rename_i hstage
    obtain ⟨r, hcall, hr⟩ := Option.map_eq_some_iff.mp h
    obtain ⟨rfl, rfl⟩ := Prod.mk.inj hr
    exact .mkdir hstage hcall
  · rename_i hstage
    obtain ⟨rfl, rfl⟩ := Prod.mk.inj (Option.some.inj h)
    exact .ended (Or.inl hstage)
  · rename_i hstage
    obtain ⟨dir, hcall, hr⟩ := Option.map_eq_some_iff.mp h
    obtain ⟨rfl, rfl⟩ := Prod.mk.inj hr
    exact .getwd hstage hcall
  · rename_i hstage
    obtain ⟨place, hcall, hr⟩ := Option.map_eq_some_iff.mp h
    obtain ⟨rfl, rfl⟩ := Prod.mk.inj hr
    exact .chdir hstage hcall
  · rename_i hstage
    obtain ⟨w₁, hcall, hr⟩ := Option.map_eq_some_iff.mp h
    obtain ⟨rfl, rfl⟩ := Prod.mk.inj hr
    exact .write hstage hcall
  · rename_i hstage
    obtain ⟨rfl, rfl⟩ := Prod.mk.inj (Option.some.inj h)
    exact .ret (Or.inl hstage)
  · rename_i hstage
    obtain ⟨rfl, rfl⟩ := Prod.mk.inj (Option.some.inj h)
    exact .ret (Or.inr hstage)
  · rename_i hstage
    obtain ⟨place, hcall, hr⟩ := Option.map_eq_some_iff.mp h
    obtain ⟨rfl, rfl⟩ := Prod.mk.inj hr
    exact .chdirBack hstage hcall
  · rename_i hstage
    obtain ⟨rfl, rfl⟩ := Prod.mk.inj (Option.some.inj h)
    exact .failed (Or.inl hstage)
  · rename_i hstage
    obtain ⟨rfl, rfl⟩ := Prod.mk.inj (Option.some.inj h)
    exact .failed (Or.inr (Or.inl hstage))
  · rename_i hstage
    obtain ⟨rfl, rfl⟩ := Prod.mk.inj (Option.some.inj h)
    exact .failed (Or.inr (Or.inr hstage))
  · rename_i hstage
    obtain ⟨rfl, rfl⟩ := Prod.mk.inj (Option.some.inj h)
    exact .remove hstage
  · rename_i hstage
    obtain ⟨rfl, rfl⟩ := Prod.mk.inj (Option.some.inj h)
    exact .ended (Or.inr hstage)
  · cases h

theorem Frame.unwind_cases (o : Options) (f : Frame) :
    f.unwind o = none ∨ f.unwind o = some { f with stage := .remove } := by
  unfold Frame.unwind
  dsimp only
  split
  · exact Or.inr rfl
  · exact Or.inl rfl

/-- A capture that makes its directory, in a world where nobody else changes the working
directory. -/
def Frame.Owns (w : World) (f : Frame) : Prop :=
  match f.stage with
  | .getwd | .chdir => ∃ id, f.home = some id ∧ w.place.target f.captureDir = some id
  | .body | .fin => f.home = some w.place.cwd
  | .mkdir | .chdirBack | .remove => True

/-- A capture that works in the directory of the cycle around it. -/
structure Frame.Borrows (w : World) (f : Frame) : Prop where
  home : f.home = some w.place.cwd
  stage : f.stage ≠ .mkdir ∧ f.stage ≠ .chdir
  back : f.stage = .body ∨ f.stage = .fin ∨ f.stage = .chdirBack →
    ∀ id, w.place.disk.lookup f.dir = some id → id = w.place.cwd

theorem World.lands_write {w w' : World} {name : GoString} {home : Option Nat}
    (h : w.write name home = some w') (hhome : home = some w.place.cwd) (hlands : w.Lands) :
    w'.Lands ∧ w'.place = w.place := by
  obtain ⟨here, -, rfl⟩ := Option.map_eq_some_iff.mp h
  refine ⟨fun file hfile => ?_, rfl⟩
  rcases List.mem_append.mp hfile with hfile | hfile
  · exact hlands file hfile
  · rw [List.mem_singleton.mp hfile]
    exact hhome

/-- Between the change of directory and the way back the capture is at home. -/
theorem Frame.owns_inside {w : World} {f : Frame} (hstage : f.stage = .body ∨ f.stage = .fin) :
    f.Owns w ↔ f.home = some w.place.cwd := by
  rcases hstage with hstage | hstage <;> rw [Frame.Owns, hstage]

theorem Frame.owns_unwind {o : Options} {w : World} {f g : Frame} (h : f.unwind o = some g) :
    g.Owns w ∧ g.makesDir = f.makesDir := by
  rcases f.unwind_cases o with hnone | hsome
  · rw [hnone] at h
    cases h
  · rw [hsome] at h
    obtain rfl := Option.some.inj h
    exact ⟨trivial, rfl⟩

/-- A capture with a directory of its own keeps to it when it takes a step. -/
theorem Frame.owns_step {o : Options} {w w' : World} {f : Frame} {f' : Option Frame} {op : Op}
    (howns : f.Owns w) (hmakes : f.makesDir = true) (hlands : w.Lands)
    (h : f.step o w op = some (w', f')) :
    w'.Lands ∧ ∀ g, f' = some g → g.Owns w' ∧ g.makesDir = true := by
  cases Frame.moves_of_step h with
  | mkdir hstage hcall =>
    refine ⟨hlands, fun g hg => ?_⟩
    obtain rfl := Option.some.inj hg
    exact ⟨⟨_, rfl, WorkDir.target_mkdir hcall⟩, hmakes⟩
  | getwd hstage hcall =>
    refine ⟨hlands, fun g hg => ?_⟩
    obtain rfl := Option.some.inj hg
    rw [Frame.Owns, hstage] at howns
    refine ⟨?_, hmakes⟩
    rw [Frame.Owns, hmakes]
    exact howns
  | chdir hstage hcall =>
    refine ⟨hlands, fun g hg => ?_⟩
    obtain rfl := Option.some.inj hg
    rw [Frame.Owns, hstage] at howns
    obtain ⟨id, hhome, htarget⟩ := howns
    obtain ⟨id', htarget', rfl⟩ := WorkDir.chdir_eq_some_iff.mp hcall
    obtain rfl : id = id' := Option.some.inj (htarget.symm.trans htarget')
    exact ⟨hhome, hmakes⟩
  | write hstage hcall =>
    have hhome := (Frame.owns_inside (Or.inl hstage)).mp howns
    obtain ⟨hlands', hplace⟩ := World.lands_write hcall hhome hlands
    refine ⟨hlands', fun g hg => ?_⟩
    obtain rfl := Option.some.inj hg
    refine ⟨(Frame.owns_inside (Or.inl hstage)).mpr ?_, hmakes⟩
    rw [hplace]
    exact hhome
  | ret hstage =>
    refine ⟨hlands, fun g hg => ?_⟩
    obtain rfl := Option.some.inj hg
    exact ⟨trivial, hmakes⟩
  | chdirBack hstage hcall =>
    refine ⟨hlands, fun g hg => ?_⟩
    obtain ⟨howns', hmakes'⟩ := Frame.owns_unwind hg
    exact ⟨howns', hmakes'.trans hmakes⟩
  | failed hstage =>
    refine ⟨hlands, fun g hg => ?_⟩
    obtain ⟨howns', hmakes'⟩ := Frame.owns_unwind hg
    exact ⟨howns', hmakes'.trans hmakes⟩
  | remove hstage =>
    exact ⟨hlands, fun g hg => by cases hg⟩
  | ended hstage =>
    exact ⟨hlands, fun g hg => by cases hg⟩

theorem Frame.borrows_unwind {o : Options} {w : World} {f g : Frame}
    (hhome : f.home = some w.place.cwd) (h : f.unwind o = some g) :
    g.Borrows w ∧ g.makesDir = f.makesDir := by
  rcases f.unwind_cases o with hnone | hsome
  · rw [hnone] at h
    cases h
  · rw [hsome] at h
    obtain rfl := Option.some.inj h
    refine ⟨⟨hhome, ⟨nofun, nofun⟩, fun hback => ?_⟩, rfl⟩
    rcases hback with hback | hback | hback <;> cases hback

/-- A capture in the directory of a cycle leaves the working directory where it is. -/
theorem Frame.borrows_step {o : Options} {w w' : World} {f : Frame} {f' : Option Frame} {op : Op}
    (hborrows : f.Borrows w) (hmakes : f.makesDir = false) (hlands : w.Lands)
    (h : f.step o w op = some (w', f')) :
    w'.Lands ∧ w'.place.cwd = w.place.cwd ∧
      ∀ g, f' = some g → g.Borrows w' ∧ g.makesDir = false := by
  cases Frame.moves_of_step h with
  | mkdir hstage hcall => exact absurd hstage hborrows.stage.1
  | chdir hstage hcall => exact absurd hstage hborrows.stage.2
  | getwd hstage hcall =>
    refine ⟨hlands, rfl, fun g hg => ?_⟩
    obtain rfl := Option.some.inj hg
    refine ⟨⟨hborrows.home, ?_, fun _ id hid => ?_⟩, hmakes⟩
    · rw [hmakes]
      exact ⟨nofun, nofun⟩
    · exact Option.some.inj (hid.symm.trans (WorkDir.lookup_getwd hcall))
  | write hstage hcall =>
    obtain ⟨hlands', hplace⟩ := World.lands_write hcall hborrows.home hlands
    refine ⟨hlands', by rw [hplace], fun g hg => ?_⟩
    obtain rfl := Option.some.inj hg
    refine ⟨⟨?_, hborrows.stage, ?_⟩, hmakes⟩
    · rw [hplace]
      exact hborrows.home
    · rw [hplace]
      exact hborrows.back
  | ret hstage =>
    refine ⟨hlands, rfl, fun g hg => ?_⟩
    obtain rfl := Option.some.inj hg
    refine ⟨⟨hborrows.home, ⟨nofun, nofun⟩, fun _ => hborrows.back ?_⟩, hmakes⟩
    exact hstage.elim Or.inl fun hfin => Or.inr (Or.inl hfin)
  | @chdirBack place hstage hcall =>
    obtain ⟨id, hid, rfl⟩ := Option.map_eq_some_iff.mp hcall
    have hcwd : id = w.place.cwd := hborrows.back (Or.inr (Or.inr hstage)) id hid
    refine ⟨hlands, hcwd, fun g hg => ?_⟩
    obtain ⟨hborrows', hmakes'⟩ := Frame.borrows_unwind
      (w := { w with place := { w.place with cwd := id } }) (hcwd ▸ hborrows.home) hg
    exact ⟨hborrows', hmakes'.trans hmakes⟩
  | failed hstage =>
    refine ⟨hlands, rfl, fun g hg => ?_⟩
    obtain ⟨hborrows', hmakes'⟩ := Frame.borrows_unwind hborrows.home hg
    exact ⟨hborrows', hmakes'.trans hmakes⟩
  | remove hstage =>
    exact ⟨hlands, WorkDir.cwd_removeAll _ _, fun g hg => by cases hg⟩
  | ended hstage =>
    exact ⟨hlands, rfl, fun g hg => by cases hg⟩

end YcAgent.Agent
