import YcAgent.Capture.AppLogM3

/-!
# A log that only grows

For one path `f` that is never rewritten, the position and the size an entry holds lie
inside the file, no call takes the file for rotated, and the destination of a call
holds the slice of the file between its start and its offset. Other paths may change
in any way.
-/
namespace YcAgent.Capture.AppLogM3

open Go Slice

variable {o : Options} {endpoint : GoString} {f : GoString} {s t : State} {a : Action}

def Grows (f : GoString) (a : Action) : Prop := ∀ bytes, a ≠ .rewrite f bytes

/-- The destination of `r` is the part of `c` between the start and the offset. -/
def Reading.Sound (c : GoString) (r : Reading) : Prop :=
  r.offset ≤ c.length ∧ r.dst = slice c r.start r.offset

theorem Reading.Sound.of_grown {c c' : GoString} {r : Reading} (h : r.Sound c) (hc : c <+: c') :
    r.Sound c' :=
  ⟨h.1.trans hc.length_le, h.2.trans (slice_of_grown hc h.1 _).symm⟩

/-- What a call knows about a file with content `c` and entry `entry`. -/
def Follows (f c : GoString) (entry : Option ReadStat) : Call → Prop
  | .idle => True
  | .statted g _ size => g = f → size ≤ c.length ∧ ∀ st, entry = some st → st.fileSize ≤ size
  | .opened r | .copying r => r.filePath = f →
    r.Sound c ∧ r.size ≤ c.length ∧ ∃ st, entry = some st ∧ r.start ≤ st.readPosition
  | .copied r | .synced r => r.filePath = f →
    r.Sound c ∧ ∃ st, entry = some st ∧ st.readPosition = r.offset

structure Growing (f : GoString) (s : State) : Prop where
  entry : ∀ st, s.readStats.lookup f = some st →
    st.fileSize ≤ (s.files f).length ∧ st.readPosition ≤ (s.files f).length
  call : Follows f (s.files f) (s.readStats.lookup f) s.call

theorem Follows.of_grown {c c' : GoString} {entry : Option ReadStat} {call : Call}
    (h : Follows f c entry call) (hc : c <+: c') : Follows f c' entry call := by
  have hlen := hc.length_le
  cases call with
  | idle => trivial
  | statted g pid size => exact fun hg => ⟨(h hg).1.trans hlen, (h hg).2⟩
  | opened r | copying r =>
    exact fun hr => ⟨(h hr).1.of_grown hc, (h hr).2.1.trans hlen, (h hr).2.2⟩
  | copied r | synced r => exact fun hr => ⟨(h hr).1.of_grown hc, (h hr).2⟩

theorem prefix_of_writes (hgrow : Grows f a) (hstep : step o endpoint s a = some t) :
    s.files f <+: t.files f := by
  cases moves_of_step hstep with
  | append path bytes =>
    show _ <+: Function.update s.files path _ f
    by_cases hf : f = path
    · subst hf
      rw [Function.update_self]
      exact List.prefix_append _ _
    · rw [Function.update_of_ne hf]
  | rewrite path bytes =>
    show _ <+: Function.update s.files path bytes f
    have hf : f ≠ path := fun hf => hgrow bytes (by rw [hf])
    rw [Function.update_of_ne hf]
  | _ => exact List.prefix_rfl

/-- The next chunk of a copy prolongs its slice. -/
theorem sound_read {files : GoString → GoString} {r : Reading} (hr : r.Sound (files r.filePath))
    (n : Nat) : Reading.Sound (files r.filePath) { r with dst := r.dst ++ chunk files r n } := by
  have hoffset : Reading.offset { r with dst := r.dst ++ chunk files r n } =
      r.offset + (chunk files r n).length := by
    rw [Reading.offset, Reading.offset, List.length_append, Nat.add_assoc]
  have hlen : (chunk files r n).length ≤ (files r.filePath).length - r.offset := by
    rw [chunk, List.length_take, List.length_drop]
    omega
  have hstart : r.start ≤ r.offset := Nat.le_add_right _ _
  constructor
  · rw [hoffset]
    have hin := hr.1
    omega
  · rw [hoffset, ← slice_append_slice _ hstart (Nat.le_add_right _ _), ← hr.2]
    exact congrArg (r.dst ++ ·) (take_drop_eq_slice _ _ _)

theorem growing_step (h : Growing f s) (hgrow : Grows f a)
    (hstep : step o endpoint s a = some t) : Growing f t := by
  have hprefix := prefix_of_writes hgrow hstep
  obtain ⟨hentry, hcalled⟩ := h
  cases moves_of_step hstep with
  | append | rewrite =>
    exact ⟨fun st hst => ⟨(hentry st hst).1.trans hprefix.length_le,
      (hentry st hst).2.trans hprefix.length_le⟩, hcalled.of_grown hprefix⟩
  | stat filePath pid hcall =>
    refine ⟨hentry, fun hg => ?_⟩
    subst hg
    exact ⟨Nat.le_refl _, fun st hst => (hentry st hst).1⟩
  | statFails => exact ⟨hentry, hcalled⟩
  | abandons | syncFails | posts => exact ⟨hentry, trivial⟩
  | @initializes filePath pid size seek hcall hlookup =>
    refine ⟨fun st hst => ?_, trivial⟩
    rw [hcall] at hcalled
    by_cases hg : f = filePath
    · subst hg
      rw [Finmap.lookup_insert] at hst
      obtain rfl := Option.some.inj hst
      exact ⟨(hcalled rfl).1, (hcalled rfl).1⟩
    · rw [Finmap.lookup_insert_of_ne _ hg] at hst
      exact hentry st hst
  | @opens filePath pid size start readStat seek hcall hlookup hstart =>
    refine ⟨hentry, fun hg => ?_⟩
    rw [hcall] at hcalled
    obtain rfl : filePath = f := hg
    obtain ⟨hsize, hle⟩ := hcalled rfl
    have hposition : start ≤ readStat.readPosition := by
      unfold seekStart at hstart
      rw [if_neg (by have h := hle readStat hlookup; omega)] at hstart
      cases seek <;> cases hstart
      · exact Nat.le_refl _
      · exact Nat.zero_le _
    refine ⟨⟨?_, (slice_self _ _).symm⟩, hsize, readStat, hlookup, hposition⟩
    exact hposition.trans (hentry readStat hlookup).2
  | creates names hcall => exact ⟨hentry, by rw [hcall] at hcalled; exact hcalled⟩
  | reads n hcall =>
    refine ⟨hentry, fun hr => ?_⟩
    rw [hcall] at hcalled
    obtain rfl := hr
    obtain ⟨hsound, hrest⟩ := hcalled rfl
    exact ⟨sound_read hsound n, hrest⟩
  | @copies r hcall hend =>
    rw [hcall] at hcalled
    by_cases hr : r.filePath = f
    · subst hr
      obtain ⟨hsound, hsize, -⟩ := hcalled rfl
      refine ⟨fun st hst => ?_, fun _ => ⟨hsound, r.readStat, Finmap.lookup_insert _, rfl⟩⟩
      rw [Finmap.lookup_insert] at hst
      obtain rfl := Option.some.inj hst
      exact ⟨hsize, hsound.1⟩
    · refine ⟨fun st hst => hentry st ?_, fun hr' => absurd hr' hr⟩
      rwa [Finmap.lookup_insert_of_ne _ (Ne.symm hr)] at hst
  | syncs hcall => exact ⟨hentry, by rw [hcall] at hcalled; exact hcalled⟩

theorem growing_init (f : GoString) (files : GoString → GoString) : Growing f (init files) :=
  ⟨GoMap.forall_empty (fun f (st : ReadStat) => st.fileSize ≤ (files f).length ∧
    st.readPosition ≤ (files f).length) f, trivial⟩

end YcAgent.Capture.AppLogM3
