import YcAgent.Capture.AppLogM3

/-!
# Detecting a truncated log

`fileSize` is the size of the stat, taken before the copy, and `readPosition` is where
the copy ended. A file that has grown since the stat when it is read leaves an entry whose
position lies behind its size, and a file rewritten to a length between the two is
not recognised as shorter.
-/
namespace YcAgent.Capture.AppLogM3

open Go Transition

variable {o : Options} {endpoint : GoString}

/-- No entry reads further than the size it remembers. -/
def InsideSize (readStats : ReadStats) : Prop :=
  ∀ f st, readStats.lookup f = some st → st.readPosition ≤ st.fileSize

/-- The call in progress starts at byte 0 when its stat saw less than was read before. -/
def RestartsOnShrink (s : State) : Prop :=
  ∀ r, s.call = .opened r ∨ s.call = .copying r →
    ∀ st, s.readStats.lookup r.filePath = some st → r.size < st.readPosition → r.start = 0

def DetectsTruncation (s : State) : Prop := InsideSize s.readStats ∧ RestartsOnShrink s

/-- A read of the copy gets a byte that its file did not have at the stat: the file is longer
than it was, and the read goes on behind that length. -/
def ReadsGrown (s : State) : Action → Prop
  | .read n =>
    match s.call with
    | .copying r => r.size < (s.files r.filePath).length ∧ r.size < r.offset + n
    | _ => False
  | _ => False

instance (s : State) (a : Action) : Decidable (ReadsGrown s a) := by
  unfold ReadsGrown
  split
  · split <;> infer_instance
  · infer_instance

def Call.copies : Call → Bool
  | .copying _ => true
  | _ => false

/-- Whether a read of the copy in progress got such a byte. -/
def sawGrowth (s : State) (a : Action) (grown : Bool) : Bool :=
  s.call.copies && (grown || decide (ReadsGrown s a))

/-- Where a copy ends, none of its reads did. -/
def EndsUngrown (x : State × Bool) (a : Action) (_ : State × Bool) : Prop :=
  a = .copyEnds → x.2 = false

theorem insideSize_insert {readStats : ReadStats} (h : InsideSize readStats) (f : GoString)
    {st : ReadStat} (hst : st.readPosition ≤ st.fileSize) : InsideSize (readStats.insert f st) :=
  GoMap.forall_insert (P := fun _ (st : ReadStat) => st.readPosition ≤ st.fileSize) h hst

theorem restartsOnShrink_of_not_reading {s : State}
    (h : ∀ r, ¬ (s.call = .opened r ∨ s.call = .copying r)) : RestartsOnShrink s :=
  fun r hr => absurd hr (h r)

theorem start_eq_zero_of_shrink {st : ReadStat} {size start : Nat} {seek : Seek}
    (hinside : st.readPosition ≤ st.fileSize) (hstart : seekStart st size seek = some start)
    (hshrink : size < st.readPosition) : start = 0 := by
  unfold seekStart at hstart
  rw [if_pos (by omega)] at hstart
  exact (Option.some.inj hstart).symm

theorem start_le_size {st : ReadStat} {size start : Nat} {seek : Seek}
    (hinside : st.readPosition ≤ st.fileSize) (hstart : seekStart st size seek = some start) :
    start ≤ size := by
  unfold seekStart at hstart
  split at hstart
  · rw [← Option.some.inj hstart]
    exact Nat.zero_le size
  · cases seek with
    | ok =>
      rw [← Option.some.inj hstart]
      omega
    | restart =>
      rw [← Option.some.inj hstart]
      exact Nat.zero_le size
    | fail => cases hstart

theorem length_chunk (files : GoString → GoString) (r : Reading) (n : Nat) :
    (chunk files r n).length = min n ((files r.filePath).length - r.offset) := by
  rw [chunk, List.length_take, List.length_drop]

theorem offset_read (files : GoString → GoString) (r : Reading) (n : Nat) :
    Reading.offset { r with dst := r.dst ++ chunk files r n } =
      r.offset + min n ((files r.filePath).length - r.offset) := by
  show r.start + (r.dst ++ chunk files r n).length = r.start + r.dst.length + _
  rw [List.length_append, length_chunk, Nat.add_assoc]

theorem detectsTruncation_step {s t : State} {a : Action} (h : DetectsTruncation s)
    (hstep : step o endpoint s a = some t)
    (hcopy : a = .copyEnds → ∀ r, s.call = .copying r → r.offset ≤ r.size) :
    DetectsTruncation t := by
  obtain ⟨hinside, hrestarts⟩ := h
  cases moves_of_step hstep with
  | append | rewrite | statFails => exact ⟨hinside, hrestarts⟩
  | stat | abandons | syncFails | syncs | posts =>
    refine ⟨hinside, restartsOnShrink_of_not_reading fun r hr => ?_⟩
    rcases hr with hr | hr <;> cases hr
  | initializes =>
    refine ⟨insideSize_insert hinside _ (Nat.le_refl _), ?_⟩
    exact restartsOnShrink_of_not_reading fun r hr => by rcases hr with hr | hr <;> cases hr
  | opens seek hcall hlookup hstart =>
    refine ⟨hinside, fun r hr st hst hshrink => ?_⟩
    rcases hr with hr | hr
    · cases hr
      obtain rfl := Option.some.inj (hlookup.symm.trans hst)
      exact start_eq_zero_of_shrink (hinside _ _ hst) hstart hshrink
    · cases hr
  | creates names hcall =>
    refine ⟨hinside, fun r hr st hst hshrink => ?_⟩
    rcases hr with hr | hr
    · cases hr
    · cases hr
      have hstart := hrestarts _ (Or.inl hcall) st hst hshrink
      exact hstart
  | reads n hcall =>
    refine ⟨hinside, fun r hr st hst hshrink => ?_⟩
    rcases hr with hr | hr
    · cases hr
    · cases hr
      have hstart := hrestarts _ (Or.inr hcall) st hst hshrink
      exact hstart
  | copies hcall hend =>
    refine ⟨insideSize_insert hinside _ (hcopy rfl _ hcall), ?_⟩
    exact restartsOnShrink_of_not_reading fun r hr => by rcases hr with hr | hr <;> cases hr

theorem detectsTruncation_init (files : GoString → GoString) : DetectsTruncation (init files) := by
  refine ⟨GoMap.forall_empty _, ?_⟩
  exact restartsOnShrink_of_not_reading fun r hr => by rcases hr with hr | hr <;> cases hr

theorem copying_of_copyEnds {s t : State} (hstep : step o endpoint s .copyEnds = some t) :
    ∃ r, s.call = .copying r := by
  cases moves_of_step hstep with
  | abandons ha => cases ha
  | copies hcall => exact ⟨_, hcall⟩

theorem copy_inside_of_detects {s t : State} {r : Reading}
    (hstep : step o endpoint s .copyEnds = some t) (hcall : s.call = .copying r)
    (h : DetectsTruncation t) : r.offset ≤ r.size := by
  cases moves_of_step hstep with
  | abandons ha => cases ha
  | copies hcopying hend =>
    obtain rfl := Call.copying.inj (hcopying.symm.trans hcall)
    exact h.1 _ _ (Finmap.lookup_insert _)

theorem sawGrowth_of_not_copies {s : State} {a : Action} {grown : Bool}
    (h : s.call.copies = false) : sawGrowth s a grown = false := by
  rw [sawGrowth, h, Bool.false_and]

theorem sawGrowth_copying {s : State} {a : Action} {grown : Bool} {r : Reading}
    (hcall : s.call = .copying r) :
    sawGrowth s a grown = (grown || decide (ReadsGrown s a)) := by
  rw [sawGrowth, hcall]
  exact Bool.true_and _

theorem sawGrowth_of_not_reads {s : State} {a : Action} {grown : Bool} {r : Reading}
    (hcall : s.call = .copying r) (ha : ¬ ReadsGrown s a) : sawGrowth s a grown = grown := by
  rw [sawGrowth_copying hcall, decide_eq_false ha, Bool.or_false]

/-- A copy that has got no byte behind the size of its stat has not come behind it. -/
structure Unpassed (s : State) (grown : Bool) : Prop where
  opened : ∀ r, s.call = .opened r → r.offset ≤ r.size
  copying : grown = false → ∀ r, s.call = .copying r → r.offset ≤ r.size

theorem unpassed_of_not_reading {s : State} {grown : Bool}
    (h : ∀ r, ¬ (s.call = .opened r ∨ s.call = .copying r)) : Unpassed s grown :=
  ⟨fun r hr => absurd (Or.inl hr) (h r), fun _ r hr => absurd (Or.inr hr) (h r)⟩

theorem unpassed_read {s : State} {r : Reading} {n : Nat} (hcall : s.call = .copying r)
    (hoffset : r.offset ≤ r.size) (hgrown : ¬ ReadsGrown s (.read n)) :
    Reading.offset { r with dst := r.dst ++ chunk s.files r n } ≤ r.size := by
  rw [ReadsGrown, hcall] at hgrown
  rw [offset_read]
  rcases Nat.lt_or_ge r.size (s.files r.filePath).length with hlong | hshort
  · have hreach := fun hlate => hgrown ⟨hlong, hlate⟩
    omega
  · omega

theorem Unpassed.step {s t : State} {grown : Bool} {a : Action} (h : Unpassed s grown)
    (hinside : InsideSize s.readStats) (hstep : step o endpoint s a = some t) :
    Unpassed t (sawGrowth s a grown) := by
  cases moves_of_step hstep with
  | append | rewrite | statFails =>
    refine ⟨h.opened, fun hgrown r hr => ?_⟩
    have hcall : s.call = .copying r := hr
    rw [sawGrowth_of_not_reads hcall (by exact id)] at hgrown
    exact h.copying hgrown r hcall
  | stat | abandons | syncFails | syncs | posts | initializes | copies =>
    refine unpassed_of_not_reading fun r hr => ?_
    rcases hr with hr | hr <;> cases hr
  | opens seek hcall hlookup hstart =>
    refine ⟨fun r hr => ?_, fun _ r hr => by cases hr⟩
    cases hr
    show _ + 0 ≤ _
    exact start_le_size (hinside _ _ hlookup) hstart
  | creates names hcall =>
    refine ⟨fun r hr => (by cases hr), fun _ r hr => ?_⟩
    cases hr
    have hopened := h.opened _ hcall
    exact hopened
  | reads n hcall =>
    refine ⟨fun r hr => (by cases hr), fun hgrown r hr => ?_⟩
    cases hr
    rw [sawGrowth_copying hcall, Bool.or_eq_false_iff, decide_eq_false_iff_not] at hgrown
    exact unpassed_read hcall (h.copying hgrown.1 _ hcall) hgrown.2

/-- A copy that has got a byte behind the size of its stat is behind it. -/
def Passed (s : State) (grown : Bool) : Prop :=
  grown = true → ∀ r, s.call = .copying r → r.size < r.offset

theorem passed_read {s : State} {r : Reading} {n : Nat} (hcall : s.call = .copying r)
    (hgrown : ReadsGrown s (.read n)) :
    r.size < Reading.offset { r with dst := r.dst ++ chunk s.files r n } := by
  rw [ReadsGrown, hcall] at hgrown
  rw [offset_read]
  obtain ⟨hlong, hlate⟩ := hgrown
  omega

theorem Passed.step {s t : State} {grown : Bool} {a : Action} (h : Passed s grown)
    (hstep : step o endpoint s a = some t) : Passed t (sawGrowth s a grown) := by
  intro hgrown r hr
  cases moves_of_step hstep with
  | append | rewrite | statFails =>
    have hcall : s.call = .copying r := hr
    rw [sawGrowth_of_not_reads hcall (by exact id)] at hgrown
    exact h hgrown r hcall
  | stat | abandons | syncFails | syncs | posts | initializes | copies | opens => cases hr
  | creates names hcall =>
    rw [sawGrowth_of_not_copies (by rw [hcall]; rfl)] at hgrown
    cases hgrown
  | reads n hcall =>
    cases hr
    rw [sawGrowth_copying hcall, Bool.or_eq_true, decide_eq_true_eq] at hgrown
    rcases hgrown with hbefore | hnow
    · show _ < Reading.offset _
      rw [offset_read]
      exact Nat.lt_add_right _ (h hbefore _ hcall)
    · exact passed_read hcall hnow

/-- Truncation is detected in every state of a run exactly when no copy that ends has got a
byte that its file did not have at the stat of the call. -/
theorem detectsTruncation_iff (files : GoString → GoString) (as : List Action) :
    Throughout (step o endpoint) DetectsTruncation (init files) as ↔
      Along (watched (step o endpoint) sawGrowth) EndsUngrown (init files, false) as := by
  apply throughout_watched_iff.symm.trans
  apply throughout_iff_along (I := fun x => DetectsTruncation x.1 ∧ Unpassed x.1 x.2)
    (J := fun x => Passed x.1 x.2)
  · rintro ⟨s, grown⟩ a ⟨t, grown'⟩ ⟨hdetects, hunpassed⟩ hstep hends
    obtain ⟨hstep, rfl⟩ := watched_eq_some_iff.mp hstep
    refine ⟨detectsTruncation_step hdetects hstep fun ha => ?_, hunpassed.step hdetects.1 hstep⟩
    exact hunpassed.copying (hends ha)
  · exact fun _ h => h.1
  · rintro ⟨s, grown⟩ a ⟨t, grown'⟩ hpassed hstep
    obtain ⟨hstep, rfl⟩ := watched_eq_some_iff.mp hstep
    exact hpassed.step hstep
  · rintro ⟨s, grown⟩ a ⟨t, grown'⟩ hpassed hstep hdetects rfl
    obtain ⟨hstep, -⟩ := watched_eq_some_iff.mp hstep
    obtain ⟨r, hcall⟩ : ∃ r, s.call = .copying r := copying_of_copyEnds hstep
    apply Bool.eq_false_iff.mpr
    intro hgrown
    have hinside := copy_inside_of_detects hstep hcall hdetects
    have hbehind := hpassed hgrown r hcall
    omega
  · exact ⟨detectsTruncation_init files,
      unpassed_of_not_reading fun r hr => by rcases hr with hr | hr <;> cases hr⟩
  · intro hgrown
    cases hgrown

/-- Three bytes arrive between the stat and the copy, then the log starts over. -/
def lateAppend : List Action :=
  [.stat (str "a.log") 1, .openSeek .ok, .append (str "a.log") (str "12345"),
   .stat (str "a.log") 1, .append (str "a.log") (str "678"), .openSeek .ok, .create [], .read 100,
   .copyEnds, .syncFails, .rewrite (str "a.log") (str "abcdef"), .stat (str "a.log") 1,
   .openSeek .ok]

/-- The position 8 is behind the remembered size 5, and the new 6 bytes are not read from
byte 0 on. -/
theorem truncation_undetected : ∃ s, run (step defaultOptions []) (init fun _ => []) lateAppend =
    some s ∧ ¬ InsideSize s.readStats ∧ ¬ RestartsOnShrink s := by
  refine ⟨_, rfl, fun h => ?_, fun h => ?_⟩
  · exact absurd (h (str "a.log") ⟨str "a.log", 5, 8⟩ rfl) (by decide)
  · have hstart := h _ (Or.inl rfl) ⟨str "a.log", 5, 8⟩ rfl (by decide)
    exact absurd hstart (by decide)

end YcAgent.Capture.AppLogM3
