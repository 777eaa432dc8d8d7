import YcAgent.Agent.Shutdown

/-!
# What the agent leaves behind

An agent in one mode has one capture at a time, and no directory but the one of that capture,
as long as every way back and every removal goes through. So when `Shutdown` is through with
its waiting there is at most one, which was made a moment before, and nothing is in it.
-/
namespace YcAgent.Agent.Shutdown

open Go

/-- The way back and the removal of the directory go through; other calls may fail. -/
def Cleans (p : Process) (act : Act) (_ : Process) : Prop :=
  ∀ a f, act = .go a (.call false) → frame p.state a = some f →
    f.stage ≠ .chdirBack ∧ f.stage ≠ .remove

/-- An agent that begins where every directory is below others that are there. -/
structure Ground extends Start where
  rooted : place.disk.Rooted

section Call

variable (g : Ground)

/-- Where a capture that begins there has its directory. -/
def Ground.dirOf (f : Frame) : DirPath := resolve g.here f.captureDir

/-- The directory that was made for the call is there, and the agent did not begin in it. -/
structure Made (w : World) (f : Frame) (id : Nat) : Prop where
  home : f.home = some id
  path : w.place.disk.pathOf id = some (g.dirOf f)
  apart : ¬ g.dirOf f <+: g.here

/-- A call with a directory of its own, where nobody else changes the working directory. -/
def TidyCall (w : World) (f : Frame) : Prop :=
  match f.stage with
  | .mkdir => f.home = none ∧ w.place.cwd = g.place.cwd
  | .getwd => ∃ id, Made g w f id ∧ w.place.cwd = g.place.cwd ∧
      ∀ file ∈ w.files, file.home ≠ some id
  | .chdir => ∃ id, Made g w f id ∧ w.place.cwd = g.place.cwd ∧ f.dir = g.here
  | .body | .fin | .chdirBack => ∃ id, Made g w f id ∧ w.place.cwd = id ∧ f.dir = g.here
  | .remove => ∃ id, Made g w f id ∧ w.place.cwd = g.place.cwd

/-- Of the directories made since the beginning only that of the call is there. -/
structure Tidy (w : World) (call : Option Frame) : Prop where
  rooted : w.place.disk.Rooted
  there : w.place.disk.pathOf g.place.cwd = some g.here
  files : ∀ file ∈ w.files, ∀ id, file.home = some id → id < w.place.disk.dirs.length
  outside : call = none → w.place.cwd = g.place.cwd
  inside : ∀ f, call = some f → f.makesDir = true ∧ TidyCall g w f
  gone : ∀ id path, g.place.disk.dirs.length ≤ id → w.place.disk.pathOf id = some path →
    ∃ f, call = some f ∧ f.home = some id

variable {g}

theorem tidyCall_enter (o : Options) (hm3 : m3Mode o = false) (timestamp : GoString)
    (home : Option Nat) (hhome : home = none) {w : World} (hcwd : w.place.cwd = g.place.cwd) :
    (fullCapture o timestamp home).makesDir = true ∧
      TidyCall g w (fullCapture o timestamp home) := by
  subst hhome
  rw [fullCapture, hm3]
  exact ⟨rfl, rfl, hcwd⟩

/-- Both the calls that fail and those that go through leave a directory to its removal. -/
theorem unwind_of_deferDelete {o : Options} (hdelete : (o .deferDelete : Bool) = true)
    (f : Frame) : f.unwind o = some { f with stage := .remove } := by
  rw [Frame.unwind]
  exact if_pos hdelete

theorem step_chdirBack {o : Options} {w w' : World} {f : Frame} {f' : Option Frame} {op : Op}
    (hstage : f.stage = .chdirBack) (hop : op ≠ .call false)
    (h : f.step o w op = some (w', f')) :
    ∃ place, w.place.chdirTo f.dir = some place ∧ w' = { w with place := place } ∧
      f' = f.unwind o := by
  unfold Frame.step at h
  rw [hstage] at h
  cases op with
  | call ok =>
    cases ok with
    | false => exact absurd rfl hop
    | true =>
      obtain ⟨place, hplace, hr⟩ := Option.map_eq_some_iff.mp h
      obtain ⟨rfl, rfl⟩ := Prod.mk.inj hr
      exact ⟨place, hplace, rfl, rfl⟩
  | _ => cases h

theorem step_remove {o : Options} {w w' : World} {f : Frame} {f' : Option Frame} {op : Op}
    (hstage : f.stage = .remove) (hop : op ≠ .call false)
    (h : f.step o w op = some (w', f')) :
    w' = { w with place := w.place.removeAll f.captureDir } ∧ f' = none := by
  unfold Frame.step at h
  rw [hstage] at h
  cases op with
  | call ok =>
    cases ok with
    | false => exact absurd rfl hop
    | true =>
      obtain ⟨rfl, rfl⟩ := Prod.mk.inj (Option.some.inj h)
      exact ⟨rfl, rfl⟩
  | _ => cases h

section Steps

variable {o : Options} {w : World} {f : Frame}

/-- Where the call is at another stage of the same directory, the rest is as it was. -/
theorem Tidy.stay {f' : Frame} (h : Tidy g w (some f)) (hhome : f'.home = f.home)
    (hmakes : f'.makesDir = f.makesDir) (hcall : TidyCall g w f') : Tidy g w (some f') where
  rooted := h.rooted
  there := h.there
  files := h.files
  outside := nofun
  inside e he := by
    obtain rfl := Option.some.inj he
    exact ⟨hmakes.trans (h.inside f rfl).1, hcall⟩
  gone id path hid hpath := by
    obtain ⟨e, he, hhome'⟩ := h.gone id path hid hpath
    obtain rfl := Option.some.inj he
    exact ⟨f', rfl, hhome.trans hhome'⟩

/-- Where it changes the working directory besides. -/
theorem Tidy.move {f' : Frame} (h : Tidy g w (some f)) (cwd : Nat) (hhome : f'.home = f.home)
    (hmakes : f'.makesDir = f.makesDir)
    (hcall : TidyCall g { w with place := { w.place with cwd := cwd } } f') :
    Tidy g { w with place := { w.place with cwd := cwd } } (some f') where
  rooted := h.rooted
  there := h.there
  files := h.files
  outside := nofun
  inside e he := by
    obtain rfl := Option.some.inj he
    exact ⟨hmakes.trans (h.inside f rfl).1, hcall⟩
  gone id path hid hpath := by
    obtain ⟨e, he, hhome'⟩ := h.gone id path hid hpath
    obtain rfl := Option.some.inj he
    exact ⟨f', rfl, hhome.trans hhome'⟩

theorem Tidy.getwd_eq (h : Tidy g w (some f)) (hcwd : w.place.cwd = g.place.cwd) :
    w.place.getwd = some g.here := by
  rw [WorkDir.getwd, hcwd]
  exact h.there

theorem Tidy.resolved_eq (h : Tidy g w (some f)) (hcwd : w.place.cwd = g.place.cwd) :
    w.place.resolved f.captureDir = some (g.dirOf f) :=
  WorkDir.resolved_of_getwd (h.getwd_eq hcwd) f.captureDir

/-- The directory is made where nothing was. -/
theorem Tidy.mkdir (h : Tidy g w (some f)) (hstage : f.stage = .mkdir) {place : WorkDir}
    {id : Nat} (hcall : w.place.mkdir f.captureDir = some (place, id)) :
    Tidy g { w with place := place } (some { f with stage := .getwd, home := some id }) := by
  obtain ⟨hmakes, hcall'⟩ := h.inside f rfl
  rw [TidyCall, hstage] at hcall'
  obtain ⟨hhome, hcwd⟩ := hcall'
  obtain ⟨dir, hdir, hmkdir, hcwd', hpath⟩ := WorkDir.mkdir_eq_some hcall
  obtain rfl : g.dirOf f = dir := Option.some.inj ((h.resolved_eq hcwd).symm.trans hdir)
  have hid : id = w.place.disk.dirs.length := WorkDir.mkdir_id hcall
  have hdirs := Disk.mkdir_dirs hmkdir
  refine ⟨Disk.rooted_mkdir h.rooted hmkdir, Disk.pathOf_mkdir hmkdir h.there,
    fun file hfile n hn => ?_, nofun, fun e he => ?_, fun n path hn hp => ?_⟩
  · have hlt := h.files file hfile n hn
    rw [hdirs, List.length_append]
    omega
  · obtain rfl := Option.some.inj he
    refine ⟨hmakes, id, ⟨rfl, hpath, fun hbelow => ?_⟩, hcwd'.trans hcwd,
      fun file hfile hfhome => ?_⟩
    · exact h.rooted _ _ _ h.there hbelow (Disk.lookup_of_mkdir hmkdir)
    · have hlt := h.files file hfile id hfhome
      omega
  · refine ⟨_, rfl, ?_⟩
    by_contra hne
    have hold : n < w.place.disk.dirs.length := by
      have hlt := (List.getElem?_eq_some_iff.mp (Disk.pathOf_eq_some_iff.mp hp)).choose
      rw [hdirs, List.length_append, List.length_singleton] at hlt
      have hnid : id ≠ n := fun heq => hne (congrArg some heq)
      omega
    rw [Disk.pathOf_eq_some_iff, hdirs, List.getElem?_append_left hold] at hp
    obtain ⟨e, he, hehome⟩ := h.gone n path hn (Disk.pathOf_eq_some_iff.mpr hp)
    rw [← Option.some.inj he, hhome] at hehome
    cases hehome

theorem Tidy.write (h : Tidy g w (some f)) (hstage : f.stage = .body) {w' : World}
    {name : GoString} (hcall : w.write name f.home = some w') : Tidy g w' (some f) := by
  obtain ⟨here, -, rfl⟩ := Option.map_eq_some_iff.mp hcall
  obtain ⟨hmakes, hcall'⟩ := h.inside f rfl
  rw [TidyCall, hstage] at hcall'
  obtain ⟨id, hmade, hcwd, hdir⟩ := hcall'
  refine ⟨h.rooted, h.there, fun file hfile n hn => ?_, nofun, fun e he => ?_, h.gone⟩
  · rcases List.mem_append.mp hfile with hfile | hfile
    · exact h.files file hfile n hn
    · rw [List.mem_singleton.mp hfile] at hn
      obtain rfl : id = n := Option.some.inj (hmade.home.symm.trans hn)
      exact (List.getElem?_eq_some_iff.mp (Disk.pathOf_eq_some_iff.mp hmade.path)).choose
  · obtain rfl := Option.some.inj he
    refine ⟨hmakes, ?_⟩
    rw [TidyCall, hstage]
    exact ⟨id, ⟨hmade.home, hmade.path, hmade.apart⟩, hcwd, hdir⟩

theorem Tidy.begin {call : Option Frame} (h : Tidy g w call) (hquiet : call = none)
    (hcall : f.makesDir = true ∧ TidyCall g w f) :
    Tidy g w (some f) where
  rooted := h.rooted
  there := h.there
  files := h.files
  outside := nofun
  inside e he := Option.some.inj he ▸ hcall
  gone id path hid hpath := by
    obtain ⟨e, he, -⟩ := h.gone id path hid hpath
    cases hquiet.symm.trans he

/-- The removal takes the directory of the call and nothing else. -/
theorem Tidy.remove (h : Tidy g w (some f)) (hstage : f.stage = .remove) :
    Tidy g { w with place := w.place.removeAll f.captureDir } none := by
  obtain ⟨-, hcall⟩ := h.inside f rfl
  rw [TidyCall, hstage] at hcall
  obtain ⟨id, hmade, hcwd⟩ := hcall
  have hremove : w.place.removeAll f.captureDir =
      { w.place with disk := w.place.disk.removeAll (g.dirOf f) } := by
    rw [WorkDir.removeAll, h.resolved_eq hcwd]
  rw [hremove]
  refine ⟨Disk.rooted_removeAll h.rooted _, Disk.pathOf_removeAll.mpr ⟨h.there, hmade.apart⟩,
    fun file hfile n hn => ?_, fun _ => hcwd, nofun, fun n path hn hp => ?_⟩
  · exact Nat.lt_of_lt_of_eq (h.files file hfile n hn) (List.length_map _).symm
  · obtain ⟨hpath, hbelow⟩ := Disk.pathOf_removeAll.mp hp
    obtain ⟨e, he, hhome⟩ := h.gone n path hn hpath
    rw [← Option.some.inj he, hmade.home] at hhome
    obtain rfl := Option.some.inj hhome
    obtain rfl : g.dirOf f = path := Option.some.inj (hmade.path.symm.trans hpath)
    exact absurd List.prefix_rfl hbelow

/-- The way back leads to where the agent began. -/
theorem Tidy.chdirBack (hdelete : (o .deferDelete : Bool) = true) (h : Tidy g w (some f))
    (hstage : f.stage = .chdirBack) {place : WorkDir}
    (hplace : w.place.chdirTo f.dir = some place) :
    Tidy g { w with place := place } (f.unwind o) := by
  obtain ⟨-, hcall⟩ := h.inside f rfl
  rw [TidyCall, hstage] at hcall
  obtain ⟨n, hmade, -, hdir⟩ := hcall
  obtain ⟨id, hid, rfl⟩ := Option.map_eq_some_iff.mp hplace
  have hthere := Disk.lookup_eq_some_iff.mpr h.there
  rw [hdir, hthere] at hid
  obtain rfl := Option.some.inj hid
  rw [unwind_of_deferDelete hdelete]
  exact h.move _ rfl rfl ⟨n, ⟨hmade.home, hmade.path, hmade.apart⟩, rfl⟩

/-- A call that cannot make its directory has left nothing. -/
theorem Tidy.ended (h : Tidy g w (some f)) (hstage : f.stage = .mkdir) : Tidy g w none := by
  obtain ⟨-, hcall⟩ := h.inside f rfl
  rw [TidyCall, hstage] at hcall
  refine ⟨h.rooted, h.there, h.files, fun _ => hcall.2, fun e he => (by cases he), ?_⟩
  intro id path hid hpath
  obtain ⟨e, he, hhome⟩ := h.gone id path hid hpath
  rw [← Option.some.inj he, hcall.1] at hhome
  cases hhome

theorem Tidy.call_step {w' : World} {f' : Option Frame} {op : Op}
    (hdelete : (o .deferDelete : Bool) = true) (h : Tidy g w (some f))
    (hcleans : op = .call false → f.stage ≠ .chdirBack ∧ f.stage ≠ .remove)
    (hstep : f.step o w op = some (w', f')) : Tidy g w' f' := by
  obtain ⟨hmakes, hcall⟩ := h.inside f rfl
  by_cases hback : f.stage = .chdirBack
  · obtain ⟨place, hplace, rfl, rfl⟩ :=
      step_chdirBack hback (fun hop => (hcleans hop).1 hback) hstep
    exact h.chdirBack hdelete hback hplace
  by_cases hremove : f.stage = .remove
  · obtain ⟨rfl, rfl⟩ := step_remove hremove (fun hop => (hcleans hop).2 hremove) hstep
    exact h.remove hremove
  cases Frame.moves_of_step hstep with
  | mkdir hstage hmkdir => exact h.mkdir hstage hmkdir
  | getwd hstage hgetwd =>
    rw [TidyCall, hstage] at hcall
    obtain ⟨id, hmade, hcwd, -⟩ := hcall
    have hdir := Option.some.inj (hgetwd.symm.trans (h.getwd_eq hcwd))
    rw [hmakes]
    exact h.stay rfl hmakes.symm ⟨id, ⟨hmade.home, hmade.path, hmade.apart⟩, hcwd, hdir⟩
  | chdir hstage hchdir =>
    rw [TidyCall, hstage] at hcall
    obtain ⟨id, hmade, hcwd, hdir⟩ := hcall
    obtain ⟨n, htarget, rfl⟩ := WorkDir.chdir_eq_some_iff.mp hchdir
    have hn : n = id := by
      rw [WorkDir.target, h.resolved_eq hcwd, Option.bind_some] at htarget
      exact Option.some.inj (htarget.symm.trans (Disk.lookup_eq_some_iff.mpr hmade.path))
    exact h.move n rfl rfl ⟨id, ⟨hmade.home, hmade.path, hmade.apart⟩, hn, hdir⟩
  | write hstage hwrite => exact h.write hstage hwrite
  | ret hstage =>
    refine h.stay rfl rfl ?_
    have hcall' : ∃ id, Made g w f id ∧ w.place.cwd = id ∧ f.dir = g.here := by
      rcases hstage with hstage | hstage <;> rw [TidyCall, hstage] at hcall <;> exact hcall
    obtain ⟨id, hmade, hcwd, hdir⟩ := hcall'
    exact ⟨id, ⟨hmade.home, hmade.path, hmade.apart⟩, hcwd, hdir⟩
  | chdirBack hstage _ => exact absurd hstage hback
  | failed hstage =>
    rw [unwind_of_deferDelete hdelete]
    have hcall' : ∃ id, Made g w f id ∧ w.place.cwd = g.place.cwd := by
      rcases hstage with hstage | hstage | hstage
      · rw [TidyCall, hstage] at hcall
        obtain ⟨id, hmade, hcwd, -⟩ := hcall
        exact ⟨id, hmade, hcwd⟩
      · rw [TidyCall, hstage] at hcall
        obtain ⟨id, hmade, hcwd, -⟩ := hcall
        exact ⟨id, hmade, hcwd⟩
      · exact absurd hstage hback
    obtain ⟨id, hmade, hcwd⟩ := hcall'
    exact h.stay rfl rfl ⟨id, ⟨hmade.home, hmade.path, hmade.apart⟩, hcwd⟩
  | remove hstage => exact absurd hstage hremove
  | ended hstage =>
    rcases hstage with hstage | hstage
    · exact h.ended hstage
    · exact absurd hstage hremove

end Steps

/-- The calls that the goroutines are in are `call`, or there are none. -/
def InCall (s : State) (call : Option Frame) : Prop :=
  ∀ f, (∃ a, frame s a = some f) ↔ call = some f

def TidyState (g : Ground) (s : State) : Prop := ∃ call, Tidy g s.world call ∧ InCall s call

theorem tidyState_start (g : Ground) : TidyState g g.toStart.state := by
  have hnone : ∀ a, frame g.toStart.state a = none := fun a => by cases a <;> rfl
  refine ⟨none, ⟨g.rooted, g.there, nofun, fun _ => rfl, nofun, fun id path hid hpath => ?_⟩,
    fun f => ⟨fun hex => ?_, nofun⟩⟩
  · have hlt := (List.getElem?_eq_some_iff.mp (Disk.pathOf_eq_some_iff.mp hpath)).choose
    exact absurd hid (Nat.not_le.mpr hlt)
  · obtain ⟨a, ha⟩ := hex
    cases (hnone a).symm.trans ha

theorem capturing_of_frame {s : State} {a : Actor} {f : Frame} (h : frame s a = some f) :
    s.Capturing a := by
  unfold frame at h
  split at h
  · rename_i c hthread
    exact ⟨c, hthread⟩
  · cases h

theorem tidyState_step {o : Options} (hmode : OneMode o) (hm3 : m3Mode o = false)
    (hdelete : (o .deferDelete : Bool) = true) {s t : State} {a : Actor} {op : Op}
    (hs : s.Kept o) (h : TidyState g s)
    (hcleans : ∀ f, op = .call false → frame s a = some f →
      f.stage ≠ .chdirBack ∧ f.stage ≠ .remove)
    (hstep : Agent.step o s (a, op) = some t) : TidyState g t := by
  obtain ⟨call, htidy, hcall⟩ := h
  obtain ⟨hturn, hother⟩ := turn_of_step hstep
  have hexcludes := (hs.step hmode hstep).excludes hmode
  have hcycle : ¬ InCycle s a := by
    intro h
    obtain ⟨f, nested, hthread⟩ := h
    exact Bool.false_ne_true (hm3.symm.trans (hs.capture a _ hthread).2.1)
  cases hturn with
  | same hsame hworld =>
    have hframe : ∀ b, frame t b = frame s b := by
      intro b
      by_cases hba : b = a
      · exact hba ▸ hsame
      · exact hother b hba
    refine ⟨call, hworld.resolve_right hcycle ▸ htidy, fun f => ?_⟩
    simp only [hframe]
    exact hcall f
  | begin timestamp home hnone hbegin hworld =>
    obtain ⟨hhome, hworld⟩ := hworld.resolve_right hcycle
    have honly : ∀ b f, frame t b = some f → b = a := fun b f hb =>
      hexcludes b a (capturing_of_frame hb) (capturing_of_frame hbegin)
    have hquiet : call = none := by
      by_contra hne
      obtain ⟨f, hf⟩ := Option.ne_none_iff_exists'.mp hne
      obtain ⟨b, hb⟩ := (hcall f).mpr hf
      by_cases hba : b = a
      · cases hnone.symm.trans (hba ▸ hb)
      · exact hba (honly b f ((hother b hba).trans hb))
    refine ⟨some (fullCapture o timestamp home), ?_, fun f => ⟨fun hex => ?_, fun hf => ?_⟩⟩
    · rw [hworld]
      exact htidy.begin hquiet
        (tidyCall_enter o hm3 timestamp home hhome (htidy.outside hquiet))
    · obtain ⟨b, hb⟩ := hex
      rw [honly b f hb] at hb
      exact hbegin.symm.trans hb
    · exact ⟨a, hbegin.trans hf⟩
  | turn f hf hturn =>
    obtain rfl := (hcall f).mp ⟨a, hf⟩
    refine ⟨frame t a, htidy.call_step hdelete (fun hop => hcleans f hop hf) hturn,
      fun e => ⟨fun hex => ?_, fun he => ⟨a, he⟩⟩⟩
    obtain ⟨b, hb⟩ := hex
    by_cases hba : b = a
    · exact hba ▸ hb
    · have hb' := (hother b hba).symm.trans hb
      exact absurd (hs.excludes hmode b a (capturing_of_frame hb') (capturing_of_frame hf)) hba

/-- The run invariant: one mode, and at most one directory. -/
theorem tidyState_of_reaches {o : Options} (hmode : OneMode o) (hm3 : m3Mode o = false)
    (hdelete : (o .deferDelete : Bool) = true) {p : Process}
    (h : Transition.Reachable (step o) Cleans (Process.init g.toStart) p) :
    p.state.Kept o ∧ Inv p ∧ TidyState g p.state := by
  refine h.invariant (I := fun p => p.state.Kept o ∧ Inv p ∧ TidyState g p.state) ?_
    ⟨kept_of_reaches hmode (reaches_start o g.toStart), inv_init g.toStart, tidyState_start g⟩
  intro p act q _ hp hstep hcleans
  obtain ⟨hkept, hinv, htidy⟩ := hp
  refine ⟨?_, inv_step hdelete hinv hstep, ?_⟩
  all_goals obtain ⟨-, hmoves⟩ := moves_of_step hstep
  · cases hmoves with
    | go a op _ _ hs => exact hkept.step hmode hs
    | add a _ => exact hkept
    | done a _ _ => exact hkept
    | leave _ => exact hkept
    | waited _ _ => exact hkept
    | exit _ => exact hkept
  · cases hmoves with
    | go a op _ _ hs =>
      exact tidyState_step hmode hm3 hdelete hkept htidy
        (fun f hop hf => hcleans a f (by rw [hop]) hf) hs
    | add a _ => exact htidy
    | done a _ _ => exact htidy
    | leave _ => exact htidy
    | waited _ _ => exact htidy
    | exit _ => exact htidy

/-- A directory that the agent made and that is there. -/
def LeftOver (g : Ground) (s : State) (id : Nat) : Prop :=
  g.place.disk.dirs.length ≤ id ∧ s.world.place.disk.pathOf id ≠ none

theorem Tidy.home_of_leftOver {s : State} {call : Option Frame} (h : Tidy g s.world call)
    {id : Nat} (hid : LeftOver g s id) : ∃ f, call = some f ∧ f.home = some id := by
  obtain ⟨path, hpath⟩ := Option.ne_none_iff_exists'.mp hid.2
  exact h.gone id path hid.1 hpath

end Call

def ground : Ground := { atRoot with rooted := Disk.rooted_root }

theorem oneMode_onDemandDeleting : OneMode onDemandDeleting :=
  ⟨by decide, by decide, by decide⟩

/-- A capture makes its directory, and the agent is told to end. -/
def madeActs : List Act := [.go .onDemand (.enter newYear), .go .onDemand (.call true), .leave]

end YcAgent.Agent.Shutdown
