import YcAgent.Agent.Modes

/-!
# Captures that exclude one another

With one mode alone there is one capture at a time, and its files are in its directory:
requests wait for each other, and the other goroutines make one capture after another.
Two modes have no lock in common. A process on demand under M3 has no directory at all.
-/
namespace YcAgent.Agent

open Go

section Modes

variable (o : Options)

/-- Requests are served, and `FullCapture` captures for them. -/
def servesCaptures : Bool := apiMode o && !runsCaptureCmd o

/-- No two of the modes are configured together. -/
structure OneMode : Prop where
  onDemandM3 : ¬ (onDemandMode o = true ∧ m3Mode o = true)
  onDemandApi : ¬ (onDemandMode o = true ∧ servesCaptures o = true)
  m3Api : ¬ (m3Mode o = true ∧ servesCaptures o = true)

/-- The goroutines that are started and make captures. -/
def MayCapture : Actor → Prop
  | .m3 => m3Mode o = true ∧ onDemandMode o = false
  | .request _ => servesCaptures o = true
  | .onDemand => onDemandMode o = true

end Modes

theorem mayCapture_iff (o : Options) (timestamp : GoString) (a : Actor) :
    MayCapture o a ↔ started o a = true ∧ (begins o timestamp a).isSome := by
  cases a with
  | m3 =>
    simp only [MayCapture, started, run, begins]
    cases onDemandMode o <;> cases m3Mode o <;> cases apiMode o <;> simp
  | request n =>
    simp only [MayCapture, started, run, begins, servesCaptures, processPid]
    cases onDemandMode o <;> cases m3Mode o <;> cases apiMode o <;> cases runsCaptureCmd o <;> simp
  | onDemand =>
    simp only [MayCapture, started, run, begins]
    cases onDemandMode o <;> cases m3Mode o <;> cases apiMode o <;> simp

/-- A capture that is in its own directory, or in that of the cycle around it. -/
def Capture.Good (o : Options) (w : World) : Capture → Prop
  | .fullCapture f => f.makesDir = true ∧ f.Owns w
  | .runSingle f nested => m3Mode o = true ∧ (f.makesDir = true ∧ f.Owns w) ∧
      ∀ g, nested = some g → f.stage = .fin ∧ g.makesDir = false ∧ g.Borrows w

theorem owns_enter (o : Options) (timestamp : GoString) (w : World) :
    (Frame.enter o timestamp true none).Owns w := trivial

theorem borrows_fullCapture {o : Options} (hm3 : m3Mode o = true) (timestamp : GoString)
    {w : World} {home : Option Nat} (hhome : home = some w.place.cwd) :
    (fullCapture o timestamp home).makesDir = false ∧
      (fullCapture o timestamp home).Borrows w := by
  have henter : fullCapture o timestamp home = Frame.enter o timestamp false home := by
    rw [fullCapture, hm3, Bool.not_true]
  rw [henter]
  refine ⟨rfl, hhome, ⟨nofun, nofun⟩, fun hback => ?_⟩
  rcases hback with hback | hback | hback <;> cases hback

/-- In a goroutine that may capture, a capture begins well. -/
theorem good_begins {o : Options} (hmode : OneMode o) {a : Actor} {timestamp : GoString}
    {c : Capture} (hmay : MayCapture o a) (h : begins o timestamp a = some c) (w : World) :
    c.Good o w := by
  have hfull : m3Mode o = false →
      (Capture.fullCapture (fullCapture o timestamp none)).Good o w := by
    intro hm3
    rw [fullCapture, hm3]
    exact ⟨rfl, owns_enter o timestamp w⟩
  cases a with
  | m3 =>
    obtain rfl := Option.some.inj h
    exact ⟨hmay.1, ⟨rfl, owns_enter o timestamp w⟩, fun g hg => by cases hg⟩
  | request n =>
    obtain ⟨f, hf, rfl⟩ := Option.map_eq_some_iff.mp h
    unfold processPid at hf
    split at hf
    · cases hf
    · obtain rfl := Option.some.inj hf
      exact hfull (Bool.eq_false_iff.mpr fun hm3 => hmode.m3Api ⟨hm3, hmay⟩)
  | onDemand =>
    obtain rfl := Option.some.inj h
    exact hfull (Bool.eq_false_iff.mpr fun hm3 => hmode.onDemandM3 ⟨hmay, hm3⟩)

/-- A capture that nobody disturbs writes into its directory. -/
theorem Capture.good_step {o : Options} {w w' : World} {c : Capture} {c' : Option Capture}
    {op : Op} (hgood : c.Good o w) (hlands : w.Lands) (h : c.step o w op = some (w', c')) :
    w'.Lands ∧ ∀ d, c' = some d → d.Good o w' := by
  unfold Capture.step at h
  split at h
  · obtain ⟨⟨w₁, f'⟩, hf, hr⟩ := Option.map_eq_some_iff.mp h
    obtain ⟨rfl, rfl⟩ := Prod.mk.inj hr
    obtain ⟨hlands', hnext⟩ := Frame.owns_step hgood.2 hgood.1 hlands hf
    refine ⟨hlands', fun d hd => ?_⟩
    obtain ⟨g, hg, rfl⟩ := Option.map_eq_some_iff.mp hd
    obtain ⟨howns, hmakes⟩ := hnext g hg
    exact ⟨hmakes, howns⟩
  · obtain ⟨⟨w₁, g'⟩, hg, hr⟩ := Option.map_eq_some_iff.mp h
    obtain ⟨rfl, rfl⟩ := Prod.mk.inj hr
    obtain ⟨hm3, hown, hnested⟩ := hgood
    obtain ⟨hstage, hmakes, hborrows⟩ := hnested _ rfl
    obtain ⟨hlands', hcwd, hnext⟩ := Frame.borrows_step hborrows hmakes hlands hg
    refine ⟨hlands', fun d hd => ?_⟩
    obtain rfl := Option.some.inj hd
    have hhome := (Frame.owns_inside (Or.inr hstage)).mp hown.2
    refine ⟨hm3, ⟨hown.1, (Frame.owns_inside (Or.inr hstage)).mpr ?_⟩, fun g₁ hg₁ => ?_⟩
    · rw [hcwd]
      exact hhome
    · obtain ⟨hborrows', hmakes'⟩ := hnext g₁ hg₁
      exact ⟨hstage, hmakes', hborrows'⟩
  · obtain ⟨hm3, hown, -⟩ := hgood
    split at h
    · rename_i hstage
      obtain ⟨rfl, rfl⟩ := Prod.mk.inj (Option.some.inj h)
      refine ⟨hlands, fun d hd => ?_⟩
      obtain rfl := Option.some.inj hd
      have hhome := (Frame.owns_inside (Or.inl hstage)).mp hown.2
      exact ⟨hm3, ⟨hown.1, hhome⟩, fun g hg => by cases hg⟩
    · cases h
  · obtain ⟨hm3, hown, -⟩ := hgood
    split at h
    · rename_i hstage
      obtain ⟨rfl, rfl⟩ := Prod.mk.inj (Option.some.inj h)
      refine ⟨hlands, fun d hd => ?_⟩
      obtain rfl := Option.some.inj hd
      have hhome := (Frame.owns_inside (Or.inr hstage)).mp hown.2
      refine ⟨hm3, hown, fun g hg => ?_⟩
      unfold processPid at hg
      split at hg
      · cases hg
      · obtain rfl := Option.some.inj hg
        exact ⟨hstage, borrows_fullCapture hm3 _ hhome⟩
    · cases h
  · obtain ⟨⟨w₁, f'⟩, hf, hr⟩ := Option.map_eq_some_iff.mp h
    obtain ⟨rfl, rfl⟩ := Prod.mk.inj hr
    obtain ⟨hm3, hown, -⟩ := hgood
    obtain ⟨hlands', hnext⟩ := Frame.owns_step hown.2 hown.1 hlands hf
    refine ⟨hlands', fun d hd => ?_⟩
    obtain ⟨g, hg, rfl⟩ := Option.map_eq_some_iff.mp hd
    obtain ⟨howns, hmakes⟩ := hnext g hg
    exact ⟨hm3, ⟨hmakes, howns⟩, fun g hg => by cases hg⟩

/-- A request that is not idle holds the lock, and no other one does. -/
def State.Locked (s : State) : Prop :=
  ∀ n, s.thread (.request n) ≠ .idle →
    s.one = true ∧ ∀ m, s.thread (.request m) ≠ .idle → m = n

/-- What every step keeps where one mode is configured. -/
structure State.Kept (o : Options) (s : State) : Prop where
  lands : s.world.Lands
  capture : ∀ a c, s.thread a = .capturing c → MayCapture o a ∧ c.Good o s.world
  locked : s.Locked

theorem State.Kept.excludes {o : Options} (hmode : OneMode o) {s : State} (h : s.Kept o) :
    s.Excludes := by
  intro a b ha hb
  obtain ⟨c, hc⟩ := ha
  obtain ⟨d, hd⟩ := hb
  have hmaya := (h.capture a c hc).1
  have hmayb := (h.capture b d hd).1
  have hone : ∀ n m c d, s.thread (.request n) = .capturing c →
      s.thread (.request m) = .capturing d → n = m := by
    intro n m c d hn hm
    exact (h.locked m (by rw [hm]; exact nofun)).2 n (by rw [hn]; exact nofun)
  cases a with
  | m3 =>
    cases b with
    | m3 => rfl
    | request m => exact absurd ⟨hmaya.1, hmayb⟩ hmode.m3Api
    | onDemand => exact absurd (hmaya.2.symm.trans hmayb) Bool.false_ne_true
  | request n =>
    cases b with
    | m3 => exact absurd ⟨hmayb.1, hmaya⟩ hmode.m3Api
    | request m => rw [hone n m c d hc hd]
    | onDemand => exact absurd ⟨hmayb, hmaya⟩ hmode.onDemandApi
  | onDemand =>
    cases b with
    | m3 => exact absurd (hmayb.2.symm.trans hmaya) Bool.false_ne_true
    | request m => exact absurd ⟨hmaya, hmayb⟩ hmode.onDemandApi
    | onDemand => rfl

theorem State.Locked.of_idle {s t : State} (h : s.Locked) (hone : t.one = s.one)
    (hidle : ∀ n, s.thread (.request n) = .idle → t.thread (.request n) = .idle) : t.Locked := by
  intro n hn
  obtain ⟨hheld, honly⟩ := h n fun hs => hn (hidle n hs)
  exact ⟨hone.trans hheld, fun m hm => honly m fun hs => hm (hidle m hs)⟩

/-- Where one goroutine moves, the others are at the captures where they were. -/
theorem State.forall_capturing_set {s : State} {P : Actor → Capture → Prop} {a : Actor}
    {t : Thread} (hother : ∀ b c, b ≠ a → s.thread b = .capturing c → P b c)
    (ha : ∀ c, t = .capturing c → P a c) (b : Actor) (c : Capture)
    (hb : (s.set a t).thread b = .capturing c) : P b c := by
  by_cases hba : b = a
  · subst hba
    rw [State.thread_set_self] at hb
    exact ha c hb
  · rw [State.thread_set_of_ne s t hba] at hb
    exact hother b c hba hb

theorem State.forall_capturing_of_not {s : State} {P : Actor → Capture → Prop} {a : Actor}
    {t : Thread} (ht : ∀ c, t ≠ .capturing c) (h : ∀ b c, s.thread b = .capturing c → P b c) :
    ∀ b c, (s.set a t).thread b = .capturing c → P b c :=
  State.forall_capturing_set (fun b c _ hb => h b c hb) fun c hc => absurd hc (ht c)

theorem State.idle_set {s : State} {a : Actor} {t : Thread} (ha : s.thread a ≠ .idle) {b : Actor}
    (hb : s.thread b = .idle) : (s.set a t).thread b = .idle := by
  have hba : b ≠ a := fun heq => ha (heq ▸ hb)
  rw [State.thread_set_of_ne s t hba, hb]

/-- The lock is free, so nobody else holds it. -/
theorem State.locked_lock {s : State} (n : Nat) (hone : s.one = false) (h : s.Locked) :
    ({ s with one := true }.set (.request n) .ready).Locked := by
  have honly : ∀ m, ({ s with one := true }.set (.request n) .ready).thread (.request m) ≠ .idle →
      m = n := by
    intro m hm
    by_contra hne
    have hactor : Actor.request m ≠ .request n := fun heq => hne (Actor.request.inj heq)
    rw [State.thread_set_of_ne _ _ hactor] at hm
    exact Bool.false_ne_true (hone.symm.trans (h m hm).1)
  intro m hm
  exact ⟨rfl, fun k hk => (honly k hk).trans (honly m hm).symm⟩

/-- Whoever unlocks was the only one that held the lock. -/
theorem State.locked_unlock {s : State} {n : Nat} (hn : s.thread (.request n) = .ready)
    (h : s.Locked) : ({ s with one := false }.set (.request n) .idle).Locked := by
  intro m hm
  by_cases hmn : m = n
  · subst hmn
    exact absurd (State.thread_set_self _ _ _) hm
  · have hactor : Actor.request m ≠ .request n := fun heq => hmn (Actor.request.inj heq)
    rw [State.thread_set_of_ne _ _ hactor] at hm
    exact absurd ((h n (by rw [hn]; exact nofun)).2 m hm) hmn

theorem State.Kept.step {o : Options} (hmode : OneMode o) {s t : State} {act : Actor × Op}
    (h : s.Kept o) (hstep : step o s act = some t) : t.Kept o := by
  have hexcludes := h.excludes hmode
  obtain ⟨hlands, hcapture, hlocked⟩ := h
  cases moves_of_step hstep with
  | lock n hthread hone =>
    exact ⟨hlands, State.forall_capturing_of_not (fun c hc => by cases hc) hcapture,
      State.locked_lock n hone hlocked⟩
  | lockM3 hthread =>
    refine ⟨hlands, State.forall_capturing_of_not (fun c hc => by cases hc) hcapture, ?_⟩
    refine hlocked.of_idle rfl fun m hm => ?_
    rw [State.thread_set_of_ne (a := .m3) (b := .request m) _ _ nofun]
    exact hm
  | enter a timestamp hstarted hthread hbegins =>
    have hmay : MayCapture o a :=
      (mayCapture_iff o timestamp a).mpr ⟨hstarted, by rw [hbegins]; rfl⟩
    refine ⟨hlands, State.forall_capturing_set (fun b c _ hb => hcapture b c hb) fun c hc => ?_, ?_⟩
    · obtain rfl := Thread.capturing.inj hc
      exact ⟨hmay, good_begins hmode hmay hbegins s.world⟩
    · exact hlocked.of_idle rfl fun m hm => State.idle_set (by rw [hthread]; exact nofun) hm
  | runCaptureCmd => exact ⟨hlands, hcapture, hlocked⟩
  | @capture a op c w c' hthread hcap =>
    obtain ⟨hmay, hgood⟩ := hcapture a c hthread
    obtain ⟨hlands', hnext⟩ := Capture.good_step hgood hlands hcap
    -- nobody else captures, so it does not matter where the working directory went
    have hother : ∀ b d, b ≠ a → s.thread b = .capturing d → MayCapture o b ∧ d.Good o w :=
      fun b d hba hb => absurd (hexcludes b a ⟨d, hb⟩ ⟨c, hthread⟩) hba
    refine ⟨hlands', State.forall_capturing_set hother fun d hd => ⟨hmay, ?_⟩, ?_⟩
    · cases c' with
      | none => cases c <;> cases hd
      | some d' =>
        obtain rfl := Thread.capturing.inj hd
        exact hnext d' rfl
    · exact hlocked.of_idle rfl fun m hm => State.idle_set (by rw [hthread]; exact nofun) hm
  | unlock n hthread =>
    exact ⟨hlands, State.forall_capturing_of_not (fun c hc => by cases hc) hcapture,
      State.locked_unlock hthread hlocked⟩
  | unlockM3 hthread =>
    refine ⟨hlands, State.forall_capturing_of_not (fun c hc => by cases hc) hcapture, ?_⟩
    refine hlocked.of_idle rfl fun m hm => ?_
    rw [State.thread_set_of_ne (a := .m3) (b := .request m) _ _ nofun]
    exact hm

theorem kept_of_reaches {o : Options} (hmode : OneMode o) {start : Start} {s : State}
    (h : Reaches o start s) : s.Kept o := by
  refine Transition.Reachable.invariant (fun t act v _ ht hstep _ => ht.step hmode hstep) ?_ h
  refine ⟨nofun, fun a c hc => ?_, fun n hn => absurd rfl hn⟩
  cases a <;> cases hc

/-- A timestamp, as `FullCapture` and `RunSingle` format it. -/
def newYear : GoString := str "2025-01-01T00-00-00"

theorem reaches_enter {o : Options} {start : Start} {s : State} {a : Actor}
    (hs : Reaches o start s) (hmay : MayCapture o a) (hthread : s.thread a = .ready)
    (timestamp : GoString) : ∃ c, begins o timestamp a = some c ∧
      Reaches o start (s.set a (.capturing c)) := by
  obtain ⟨hstarted, hbegins⟩ := (mayCapture_iff o timestamp a).mp hmay
  obtain ⟨c, hc⟩ := Option.isSome_iff_exists.mp hbegins
  have hstep : step o s (a, .enter timestamp) = some (s.set a (.capturing c)) := by
    simp only [step, hstarted, if_true, hthread, hc]
  exact ⟨c, hc, hs.next hstep trivial⟩

theorem reaches_capture {o : Options} {start : Start} {s : State} {a : Actor} {op : Op}
    {c d : Capture} {w : World} (hs : Reaches o start s) (hstarted : started o a = true)
    (hthread : s.thread a = .capturing c) (hcapture : c.step o s.world op = some (w, some d)) :
    Reaches o start ({ s with world := w }.set a (.capturing d)) := by
  have hstep : step o s (a, op) = some ({ s with world := w }.set a (.capturing d)) := by
    simp only [step, hstarted, if_true, hthread, hcapture, Option.map_some, Option.elim_some]
  exact hs.next hstep trivial

theorem State.capturing_set_self (s : State) (a : Actor) (c : Capture) :
    (s.set a (.capturing c)).Capturing a := ⟨c, State.thread_set_self _ _ _⟩

theorem State.capturing_set_of_ne {s : State} {a b : Actor} {t : Thread} (hne : b ≠ a)
    (h : s.Capturing b) : (s.set a t).Capturing b := by
  obtain ⟨c, hc⟩ := h
  exact ⟨c, (State.thread_set_of_ne s t hne).trans hc⟩

theorem reaches_start (o : Options) (start : Start) : Reaches o start start.state :=
  Transition.Reachable.refl _

/-- A request takes its lock and captures. -/
theorem reaches_request {o : Options} (start : Start) (hmay : MayCapture o (.request 0)) :
    ∃ s, Reaches o start s ∧ s.Capturing (.request 0) ∧ s.thread .onDemand = .ready ∧
      s.thread .m3 = .idle ∧ s.runLock = false := by
  obtain ⟨hstarted, -⟩ := (mayCapture_iff o newYear (.request 0)).mp hmay
  have hlock : step o start.state (.request 0, .lock) =
      some ({ start.state with one := true }.set (.request 0) .ready) := by
    simp [step, hstarted, Start.state]
  obtain ⟨c, -, hc⟩ := reaches_enter ((reaches_start o start).next hlock trivial) hmay
    (State.thread_set_self _ _ _) newYear
  exact ⟨_, hc, State.capturing_set_self _ _ _, rfl, rfl, rfl⟩

/-- Nothing keeps another goroutine from its capture while a request has one. -/
theorem overlaps {o : Options} (start : Start) (hrequest : servesCaptures o = true)
    (hother : onDemandMode o = true ∨ m3Mode o = true) :
    ∃ s, Reaches o start s ∧ ¬ s.Excludes := by
  obtain ⟨s, hs, hcapturing, honDemand, hm3, hrunLock⟩ := reaches_request start hrequest
  by_cases hpid : onDemandMode o = true
  · obtain ⟨c, -, hc⟩ := reaches_enter hs (a := .onDemand) hpid honDemand newYear
    refine ⟨_, hc, fun hexcludes => ?_⟩
    have hrequest := State.capturing_set_of_ne (a := .onDemand) (b := .request 0)
      (t := .capturing c) nofun hcapturing
    cases hexcludes _ _ hrequest (State.capturing_set_self s .onDemand c)
  · have hmay : MayCapture o .m3 := ⟨hother.resolve_left hpid, Bool.eq_false_iff.mpr hpid⟩
    obtain ⟨hstarted, -⟩ := (mayCapture_iff o newYear .m3).mp hmay
    have hlock : step o s (.m3, .lock) = some ({ s with runLock := true }.set .m3 .ready) := by
      simp [step, hstarted, hm3, hrunLock]
    obtain ⟨c, -, hc⟩ := reaches_enter (hs.next hlock trivial) hmay
      (State.thread_set_self _ _ _) newYear
    refine ⟨_, hc, fun hexcludes => ?_⟩
    have hready : ({ s with runLock := true }.set .m3 .ready).Capturing (.request 0) :=
      State.capturing_set_of_ne nofun hcapturing
    have hrequest := State.capturing_set_of_ne (a := .m3) (b := .request 0)
      (t := .capturing c) nofun hready
    cases hexcludes _ _ hrequest (State.capturing_set_self _ .m3 c)

/-- On demand under M3 there is no directory, and a file goes to where the agent began. -/
theorem strays {o : Options} (start : Start) (hpid : onDemandMode o = true)
    (hm3 : m3Mode o = true) : ∃ s, Reaches o start s ∧ ¬ s.world.Lands := by
  have hstarted := ((mayCapture_iff o newYear .onDemand).mp hpid).1
  obtain ⟨c, hbegins, hentered⟩ := reaches_enter (reaches_start o start) (a := .onDemand) hpid rfl
    newYear
  obtain rfl : Capture.fullCapture (fullCapture o newYear none) = c := Option.some.inj hbegins
  have henter : fullCapture o newYear none = Frame.enter o newYear false none := by
    rw [fullCapture, hm3, Bool.not_true]
  have hthere : start.state.world.place.getwd = some start.here := start.there
  let f : Frame := { Frame.enter o newYear false none with stage := .body, dir := start.here }
  have hgetwd : (Capture.fullCapture (fullCapture o newYear none)).step o start.state.world
      (.call true) = some (start.state.world, some (.fullCapture f)) := by
    rw [henter]
    simp [Capture.step, Frame.step, Frame.enter, hthere, f]
  have hworking := reaches_capture hentered hstarted (State.thread_set_self _ _ _) hgetwd
  let w : World := ⟨start.place, [⟨str "top.out", start.place.cwd, none⟩]⟩
  have hwrite : (Capture.fullCapture f).step o start.state.world (.write (str "top.out")) =
      some (w, some (.fullCapture f)) := by
    have hcall : start.state.world.write (str "top.out") none = some w := by
      rw [World.write, hthere]
      rfl
    simp [Capture.step, Frame.step, Frame.enter, hcall, f]
  have hwritten := reaches_capture hworking hstarted (State.thread_set_self _ _ _) hwrite
  refine ⟨_, hwritten, fun hlands => ?_⟩
  cases hlands _ List.mem_cons_self

/-- Captures exclude one another, and their files are in their directories, in every state
of every run exactly where no two modes are configured together. -/
theorem excludes_iff_oneMode (o : Options) (start : Start) :
    (∀ s, Reaches o start s → s.Excludes ∧ s.world.Lands) ↔ OneMode o := by
  constructor
  · intro h
    refine ⟨fun hboth => ?_, fun hboth => ?_, fun hboth => ?_⟩
    · obtain ⟨s, hs, hstray⟩ := strays start hboth.1 hboth.2
      exact hstray (h s hs).2
    · obtain ⟨s, hs, hoverlap⟩ := overlaps start hboth.2 (Or.inl hboth.1)
      exact hoverlap (h s hs).1
    · obtain ⟨s, hs, hoverlap⟩ := overlaps start hboth.2 (Or.inr hboth.1)
      exact hoverlap (h s hs).1
  · intro hmode s hs
    have hkept := kept_of_reaches hmode hs
    exact ⟨hkept.excludes hmode, hkept.lands⟩

/-- The agent with `-m3` and `-port 8085`. -/
def m3WithApi : Options :=
  Function.update (Function.update defaultOptions .m3 true) .port (8085 : Int)

def atRoot : Start where
  place := ⟨Disk.root, 0⟩
  here := []
  there := rfl

/-- A request comes while a cycle is in its directory. -/
def requestInCycle : List (Actor × Op) :=
  [(.m3, .lock), (.m3, .enter newYear), (.m3, .call true), (.m3, .call true),
   (.m3, .call true), (.request 0, .lock), (.request 0, .enter (str "2025-01-01T00-00-05")),
   (.request 0, .call true), (.request 0, .write (str "meta-info.txt"))]

/-- The request captures while the cycle does, and its file goes to the directory of the
cycle. -/
theorem request_strays_into_cycle :
    ∃ s, Reaches m3WithApi atRoot s ∧ ¬ s.Excludes ∧ ¬ s.world.Lands := by
  refine ⟨_, ⟨requestInCycle, rfl, Transition.along_of_forall_mem _ (fun _ _ => trivial) _⟩, ?_, ?_⟩
  · intro hexcludes
    cases hexcludes .m3 (.request 0) ⟨_, rfl⟩ ⟨_, rfl⟩
  · intro hlands
    cases hlands ⟨str "meta-info.txt", 1, none⟩ (List.mem_cons_self ..)

end YcAgent.Agent
