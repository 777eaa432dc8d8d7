import YcAgent.Capture.AppLogM3Growing

/-!
# Exactly-once capture of a growing log

While the seeks to positions inside a growing file succeed, the destinations of its
copies, one after another, are the file from the size at the first call up to the
stored position.
-/
namespace YcAgent.Capture.AppLogM3

open Go Slice Transition

variable {o : Options} {endpoint : GoString} {f : GoString} {s t : State} {a : Action}

def Event.copyOf (f : GoString) : Event → Option GoString
  | .copied r => if r.filePath = f then some r.dst else none
  | _ => none

/-- The destination files of the copies of `f` that succeeded, in order. -/
def copies (f : GoString) (history : List Event) : GoString :=
  (history.filterMap (Event.copyOf f)).flatten

def Event.firstOf (f : GoString) : Event → Option Nat
  | .initialized g size => if g = f then some size else none
  | _ => none

/-- The size the first call for `f` saw. -/
def firstSize (f : GoString) (history : List Event) : Option Nat :=
  history.findSome? (Event.firstOf f)

theorem copies_snoc (f : GoString) (history : List Event) (e : Event) :
    copies f (history ++ [e]) = copies f history ++ (e.copyOf f).getD [] := by
  rw [copies, List.filterMap_append, List.flatten_append]
  cases h : e.copyOf f <;> simp [copies, h]

theorem firstSize_snoc (f : GoString) (history : List Event) (e : Event) :
    firstSize f (history ++ [e]) = (firstSize f history).or (e.firstOf f) := by
  rw [firstSize, List.findSome?_append]
  cases h : e.firstOf f <;> simp [firstSize, h]

theorem firstSize_copied (f : GoString) (history : List Event) (r : Reading) :
    firstSize f (history ++ [.copied r]) = firstSize f history := by
  rw [firstSize_snoc]
  exact Option.or_none

theorem firstSize_returned (f : GoString) (history : List Event) (r : Reading) (ok : Bool) :
    firstSize f (history ++ [.returned r ok]) = firstSize f history := by
  rw [firstSize_snoc]
  exact Option.or_none

/-- A seek to a position inside `f` succeeds. -/
def SeeksInside (f : GoString) (s : State) (a : Action) (_ : State) : Prop :=
  ∀ seek, a = .openSeek seek → ∀ pid size, s.call = .statted f pid size →
    ∀ st, s.readStats.lookup f = some st → st.readPosition ≤ (s.files f).length → seek = .ok

/-- The copies so far are the file from the first size up to the position. -/
def Captured (c : GoString) (history : List Event) (f : GoString) : Option ReadStat → Prop
  | none => firstSize f history = none ∧ copies f history = []
  | some st => ∃ first, firstSize f history = some first ∧ first ≤ st.readPosition ∧
    copies f history = slice c first st.readPosition

/-- The call in progress starts at the stored position. -/
def Resumes (f : GoString) (s : State) : Prop :=
  ∀ r, s.call = .opened r ∨ s.call = .copying r → r.filePath = f →
    ∀ st, s.readStats.lookup f = some st → r.start = st.readPosition

structure ExactlyOnce (f : GoString) (s : State) : Prop where
  growing : Growing f s
  captured : Captured (s.files f) s.history f (s.readStats.lookup f)
  resumes : Resumes f s

theorem Captured.of_grown {c c' : GoString} {history : List Event} {entry : Option ReadStat}
    (h : Captured c history f entry) (hc : c <+: c')
    (hin : ∀ st, entry = some st → st.readPosition ≤ c.length) : Captured c' history f entry := by
  cases entry with
  | none => exact h
  | some st =>
    obtain ⟨first, hfirst, hle, hcopies⟩ := h
    exact ⟨first, hfirst, hle, hcopies.trans (slice_of_grown hc (hin st rfl) first).symm⟩

/-- An event that neither copies from `f` nor initializes it changes nothing. -/
theorem Captured.snoc {c : GoString} {history : List Event} {entry : Option ReadStat} {e : Event}
    (h : Captured c history f entry) (hcopy : e.copyOf f = none) (hfirst : e.firstOf f = none) :
    Captured c (history ++ [e]) f entry := by
  cases entry <;>
    simpa only [Captured, copies_snoc, firstSize_snoc, hcopy, hfirst, Option.getD_none,
      List.append_nil, Option.or_none] using h

theorem resumes_of_not_reading (h : ∀ r, ¬ (s.call = .opened r ∨ s.call = .copying r)) :
    Resumes f s :=
  fun r hr => absurd hr (h r)

theorem start_eq_position {st : ReadStat} {size start : Nat} (hsize : st.fileSize ≤ size)
    (hstart : seekStart st size .ok = some start) : start = st.readPosition := by
  unfold seekStart at hstart
  rw [if_neg (by omega)] at hstart
  exact (Option.some.inj hstart).symm

theorem Captured.initialized {c : GoString} {history : List Event}
    (h : Captured c history f none) (size : Nat) :
    Captured c (history ++ [.initialized f size]) f (some ⟨f, size, size⟩) := by
  refine ⟨size, ?_, Nat.le_refl _, ?_⟩
  · rw [firstSize_snoc, h.1]
    exact if_pos rfl
  · rw [copies_snoc, h.2]
    exact (slice_self _ _).symm

/-- A copy that starts at the stored position prolongs the slice. -/
theorem Captured.copied {c : GoString} {history : List Event} {st : ReadStat} {r : Reading}
    (h : Captured c history r.filePath (some st)) (hsound : r.Sound c)
    (hstart : r.start = st.readPosition) :
    Captured c (history ++ [.copied r]) r.filePath (some r.readStat) := by
  obtain ⟨first, hfirst, hle, hcopies⟩ := h
  have hoffset : r.start ≤ r.offset := Nat.le_add_right _ _
  have hcopy : Event.copyOf r.filePath (.copied r) = some r.dst := if_pos rfl
  refine ⟨first, ?_, ?_, ?_⟩
  · rw [firstSize_copied, hfirst]
  · exact (hle.trans hstart.ge).trans hoffset
  · rw [copies_snoc, hcopies, hcopy, Option.getD_some, hsound.2, ← hstart]
    exact slice_append_slice _ (hle.trans hstart.ge) hoffset

theorem captured_step (h : ExactlyOnce f s) (hgrow : Grows f a)
    (hstep : step o endpoint s a = some t) :
    Captured (t.files f) t.history f (t.readStats.lookup f) := by
  have hprefix := prefix_of_writes hgrow hstep
  obtain ⟨⟨hentry, hcalled⟩, hcaptured, hresumes⟩ := h
  have hcaptured' := hcaptured.of_grown hprefix fun st hst => (hentry st hst).2
  cases moves_of_step hstep with
  | syncFails | posts => exact hcaptured'.snoc rfl rfl
  | @initializes filePath pid size seek hcall hlookup =>
    by_cases hg : filePath = f
    · subst hg
      rw [hlookup] at hcaptured
      rw [Finmap.lookup_insert]
      exact hcaptured.initialized size
    · have hother : f ≠ filePath := fun he => hg he.symm
      have hsnoc := hcaptured'.snoc (e := .initialized filePath size) rfl (if_neg hg)
      rwa [← Finmap.lookup_insert_of_ne s.readStats hother] at hsnoc
  | @copies r hcall hend =>
    by_cases hr : r.filePath = f
    · subst hr
      rw [hcall] at hcalled
      obtain ⟨hsound, -, st, hlookup, -⟩ := hcalled rfl
      have hstart := hresumes r (Or.inr hcall) rfl st hlookup
      rw [hlookup] at hcaptured
      rw [Finmap.lookup_insert]
      exact hcaptured.copied hsound hstart
    · have hother : f ≠ r.filePath := fun he => hr he.symm
      have hsnoc := hcaptured'.snoc (e := .copied r) (if_neg hr) rfl
      rwa [← Finmap.lookup_insert_of_ne s.readStats hother] at hsnoc
  | _ => exact hcaptured'

theorem resumes_step (h : ExactlyOnce f s) (hstep : step o endpoint s a = some t)
    (hseek : SeeksInside f s a t) : Resumes f t := by
  obtain ⟨⟨hentry, hcalled⟩, -, hresumes⟩ := h
  cases moves_of_step hstep with
  | append | rewrite | statFails => exact hresumes
  | stat | abandons | syncFails | syncs | posts | initializes | copies =>
    exact resumes_of_not_reading fun r hr => by rcases hr with hr | hr <;> cases hr
  | @opens filePath pid size start readStat seek hcall hlookup hstart =>
    intro r hr hf st hst
    rcases hr with hr | hr
    · cases hr
      obtain rfl : filePath = f := hf
      obtain rfl := Option.some.inj (hlookup.symm.trans hst)
      rw [hcall] at hcalled
      have hok := hseek seek rfl pid size hcall _ hlookup (hentry _ hlookup).2
      subst hok
      exact start_eq_position ((hcalled rfl).2 _ hlookup) hstart
    · cases hr
  | creates names hcall =>
    intro r hr hf st hst
    rcases hr with hr | hr
    · cases hr
    · cases hr
      exact hresumes _ (Or.inl hcall) hf st hst
  | reads n hcall =>
    intro r hr hf st hst
    rcases hr with hr | hr
    · cases hr
    · cases hr
      have hstart := hresumes _ (Or.inr hcall) hf st hst
      exact hstart

theorem exactlyOnce_step (h : ExactlyOnce f s) (hgrow : Grows f a)
    (hstep : step o endpoint s a = some t) (hseek : SeeksInside f s a t) : ExactlyOnce f t :=
  ⟨growing_step h.growing hgrow hstep, captured_step h hgrow hstep, resumes_step h hstep hseek⟩

theorem exactlyOnce_init (f : GoString) (files : GoString → GoString) :
    ExactlyOnce f (init files) := by
  refine ⟨growing_init f files, ?_, ?_⟩
  · rw [init, Finmap.lookup_empty]
    exact ⟨rfl, rfl⟩
  · exact resumes_of_not_reading fun r hr => by rcases hr with hr | hr <;> cases hr

/-- Exactly-once capture: the copies of a growing file are its content between the size
at the first call and the stored position. -/
theorem copies_eq_slice {files : GoString → GoString} {as : List Action}
    (hgrow : ∀ a ∈ as, Grows f a)
    (hseek : Along (step o endpoint) (SeeksInside f) (init files) as)
    (hrun : run (step o endpoint) (init files) as = some s) :
    (s.readStats.lookup f = none → firstSize f s.history = none ∧ copies f s.history = []) ∧
      ∀ st, s.readStats.lookup f = some st → st.readPosition ≤ (s.files f).length ∧
        ∃ first, firstSize f s.history = some first ∧ first ≤ st.readPosition ∧
          copies f s.history = slice (s.files f) first st.readPosition := by
  have hall := along_and (along_of_forall_mem (step o endpoint) hgrow (init files)) hseek
  have hend : ExactlyOnce f s := by
    refine run_invariant_along (I := ExactlyOnce f) ?_ (exactlyOnce_init f files) hall hrun
    exact fun _ _ _ hs hstep hP => exactlyOnce_step hs hP.1 hstep hP.2
  have hcaptured := hend.captured
  constructor
  · intro hlookup
    rw [hlookup] at hcaptured
    exact hcaptured
  · intro st hlookup
    rw [hlookup] at hcaptured
    exact ⟨(hend.growing.entry st hlookup).2, hcaptured⟩

/-- A call that reads two new bytes and a third one that comes while it runs. -/
def growingRun : List Action :=
  [.stat (str "a.log") 1, .openSeek .ok, .append (str "a.log") (str "12"),
   .stat (str "a.log") 1, .append (str "a.log") (str "3"), .openSeek .ok, .create [], .read 2,
   .read 2, .copyEnds, .syncFails]

theorem grows_growingRun : ∀ a ∈ growingRun, Grows (str "a.log") a := by
  intro a ha bytes he
  subst he
  simp [growingRun] at ha

theorem seeksInside_growingRun :
    Along (step defaultOptions []) (SeeksInside (str "a.log")) (init fun _ => str "0")
      growingRun := by
  have hok : ∀ a ∈ growingRun, ∀ seek, a = .openSeek seek → seek = .ok := by
    intro a ha seek he
    subst he
    simpa [growingRun] using ha
  exact (along_of_forall_mem _ hok _).mono fun _ _ _ h seek he _ _ _ _ _ _ => h seek he

theorem copies_eq_slice_growingRun : ∃ s,
    run (step defaultOptions []) (init fun _ => str "0") growingRun = some s ∧
    (s.readStats.lookup (str "a.log") = none →
      firstSize (str "a.log") s.history = none ∧ copies (str "a.log") s.history = []) ∧
    ∀ st, s.readStats.lookup (str "a.log") = some st →
      st.readPosition ≤ (s.files (str "a.log")).length ∧
        ∃ first, firstSize (str "a.log") s.history = some first ∧ first ≤ st.readPosition ∧
          copies (str "a.log") s.history =
            slice (s.files (str "a.log")) first st.readPosition :=
  ⟨_, rfl, copies_eq_slice grows_growingRun seeksInside_growingRun rfl⟩

end YcAgent.Capture.AppLogM3
