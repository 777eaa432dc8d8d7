import YcAgent.Capture.AppLogM3ExactlyOnce

/-!
# Failed deliveries

The entry of a file moves on when the copy ends, before the sync and the post. What a
call copied and could not deliver is therefore not read again.
-/
namespace YcAgent.Capture.AppLogM3

open Go Slice Transition

variable {o : Options} {endpoint : GoString} {f : GoString} {s t : State} {a : Action}

/-- Byte `j` of `f` was in the content of a call that returned Ok. -/
def Delivered (f : GoString) (s : State) (j : Nat) : Prop :=
  ∃ r, .returned r true ∈ s.history ∧ r.filePath = f ∧ r.start ≤ j ∧ j < r.offset ∧
    r.dst[j - r.start]? = (s.files f)[j]?

/-- Between calls, what was appended since the first call and lies below the position was
delivered. -/
def NothingLost (f : GoString) (s : State) : Prop :=
  s.call = .idle → ∀ st first, s.readStats.lookup f = some st →
    firstSize f s.history = some first → ∀ j, first ≤ j → j < st.readPosition → Delivered f s j

/-- After a call that copied something and failed to deliver it, the next one starts where
the failed one started. -/
def RetriesFailed (f : GoString) (s : State) : Prop :=
  s.call = .idle → ∀ r, s.history.getLast? = some (.returned r false) → r.filePath = f →
    r.dst ≠ [] → ∀ st, s.readStats.lookup f = some st → st.readPosition ≤ r.start

variable (o endpoint) in
/-- A call that copied something of `f` syncs it and posts it. -/
def Delivers (f : GoString) (s : State) (a : Action) (_ : State) : Prop :=
  (a = .syncFails → ∀ r, s.call = .copied r → r.filePath = f → r.dst = []) ∧
  ∀ w, a = .post w → ∀ r, s.call = .synced r → r.filePath = f → r.dst ≠ [] →
    (r.post o endpoint w).ok = true

/-- The position up to which everything is delivered: a copy that is pending does not count. -/
def settledPosition (f : GoString) (call : Call) (st : ReadStat) : Nat :=
  match call.pending with
  | some r => if r.filePath = f then r.start else st.readPosition
  | none => st.readPosition

def SettledDelivered (f : GoString) (s : State) : Prop :=
  ∀ st first, s.readStats.lookup f = some st → firstSize f s.history = some first →
    ∀ j, first ≤ j → j < settledPosition f s.call st → Delivered f s j

def Unseen (f : GoString) (s : State) : Prop :=
  s.readStats.lookup f = none → firstSize f s.history = none

structure Delivering (f : GoString) (s : State) : Prop where
  growing : Growing f s
  unseen : Unseen f s
  settled : SettledDelivered f s
  failed : ∀ r, .returned r false ∈ s.history → r.filePath = f → r.dst = []

theorem Delivered.mono {j : Nat} (h : Delivered f s j) (hfiles : s.files f <+: t.files f)
    (hhistory : s.history <+: t.history) : Delivered f t j := by
  obtain ⟨r, hr, hf, hstart, hend, hbyte⟩ := h
  refine ⟨r, hhistory.subset hr, hf, hstart, hend, ?_⟩
  have hlt : j - r.start < r.dst.length := by
    unfold Reading.offset at hend
    omega
  rw [List.getElem?_eq_getElem hlt] at hbyte ⊢
  obtain ⟨hj, -⟩ := List.getElem?_eq_some_iff.mp hbyte.symm
  obtain ⟨rest, hrest⟩ := hfiles
  rw [hbyte, ← hrest, List.getElem?_append_left hj]

theorem offset_eq_start {r : Reading} (h : r.dst = []) : r.offset = r.start := by
  rw [Reading.offset, h, List.length_nil, Nat.add_zero]

/-- The entry of a pending copy stands at its end. -/
theorem pending_entry {r : Reading} (h : Growing f s) (hpending : s.call.pending = some r)
    (hr : r.filePath = f) :
    r.Sound (s.files f) ∧ ∃ st, s.readStats.lookup f = some st ∧ st.readPosition = r.offset := by
  have hcall := h.call
  revert hcall hpending
  cases s.call with
  | copied r' | synced r' =>
    intro hpending hcall
    obtain rfl : r' = r := Option.some.inj hpending
    exact hcall hr
  | _ => exact fun hpending => nomatch hpending

theorem settledPosition_of_pending {call : Call} {r : Reading} (h : call.pending = some r)
    (hr : r.filePath = f) (st : ReadStat) : settledPosition f call st = r.start := by
  rw [settledPosition, h]
  exact if_pos hr

theorem settledPosition_of_other {call : Call} (h : ∀ r, call.pending = some r → r.filePath ≠ f)
    (st : ReadStat) : settledPosition f call st = st.readPosition := by
  unfold settledPosition
  split
  · rename_i r hr
    exact if_neg (h r hr)
  · rfl

theorem settledPosition_idle (f : GoString) (st : ReadStat) :
    settledPosition f .idle st = st.readPosition := rfl

/-- Delivery is kept by a step that leaves the entry alone and the position where it was. -/
theorem SettledDelivered.of_le (h : SettledDelivered f s) (hfiles : s.files f <+: t.files f)
    (hhistory : s.history <+: t.history) (hlookup : t.readStats.lookup f = s.readStats.lookup f)
    (hfirst : firstSize f t.history = firstSize f s.history)
    (hposition : ∀ st, s.readStats.lookup f = some st →
      settledPosition f t.call st ≤ settledPosition f s.call st) : SettledDelivered f t := by
  intro st first hst hfirst' j hj hlt
  rw [hlookup] at hst
  rw [hfirst] at hfirst'
  exact (h st first hst hfirst' j hj (hlt.trans_le (hposition st hst))).mono hfiles hhistory

/-- What a call returns for a copy of `f` that was pending. -/
theorem settledDelivered_return (hgrowing : Growing f s) (h : SettledDelivered f s) {r : Reading}
    (hpending : s.call.pending = some r) (ok : Bool)
    (hok : r.filePath = f → r.dst ≠ [] → ok = true) :
    SettledDelivered f { s with call := .idle, history := s.history ++ [.returned r ok] } := by
  have hfirst := firstSize_returned f s.history r ok
  by_cases hr : r.filePath = f
  · intro st first hst hfirst' j hj hlt
    obtain ⟨hsound, st', hst', hposition⟩ := pending_entry hgrowing hpending hr
    obtain rfl := Option.some.inj (hst.symm.trans hst')
    rw [settledPosition_idle, hposition] at hlt
    by_cases hjr : j < r.start
    · refine (h st first hst (hfirst ▸ hfirst') j hj ?_).mono (List.prefix_rfl)
        (List.prefix_append _ _)
      rwa [settledPosition_of_pending hpending hr]
    · have hne : r.dst ≠ [] := by
        intro hnil
        rw [offset_eq_start hnil] at hlt
        exact hjr hlt
      have hreturned := hok hr hne
      subst hreturned
      refine ⟨r, List.mem_append_right _ List.mem_cons_self, hr, by omega, hlt, ?_⟩
      rw [hsound.2]
      exact getElem?_slice (by omega) hlt
  · refine h.of_le List.prefix_rfl (List.prefix_append _ _) rfl hfirst fun st _ => ?_
    have hother : ∀ r', s.call.pending = some r' → r'.filePath ≠ f := by
      intro r' hr'
      obtain rfl : r = r' := Option.some.inj (hpending.symm.trans hr')
      exact hr
    rw [settledPosition_of_other hother, settledPosition_idle]

theorem settledDelivered_step (h : Delivering f s) (hgrow : Grows f a)
    (hstep : step o endpoint s a = some t) (hdelivers : Delivers o endpoint f s a t) :
    SettledDelivered f t := by
  have hprefix := prefix_of_writes hgrow hstep
  obtain ⟨hgrowing, hunseen, hsettled, -⟩ := h
  cases moves_of_step hstep with
  | append | rewrite =>
    exact hsettled.of_le hprefix List.prefix_rfl rfl rfl fun st _ => Nat.le_refl _
  | statFails => exact hsettled
  | stat filePath pid hcall | opens seek hcall | creates names hcall | reads n hcall
  | syncs hcall =>
    refine hsettled.of_le List.prefix_rfl List.prefix_rfl rfl rfl fun st _ => ?_
    rw [hcall]
    exact Nat.le_refl _
  | abandons ha hcall =>
    refine hsettled.of_le List.prefix_rfl List.prefix_rfl rfl rfl fun st _ => ?_
    rw [settledPosition_idle, settledPosition_of_other (by simp [hcall])]
  | @initializes filePath pid size seek hcall hlookup =>
    by_cases hg : filePath = f
    · subst hg
      intro st first hst hfirst j hj hlt
      rw [Finmap.lookup_insert] at hst
      obtain rfl := Option.some.inj hst
      rw [firstSize_snoc, hunseen hlookup, Option.none_or, Event.firstOf, if_pos rfl] at hfirst
      obtain rfl := Option.some.inj hfirst
      exact absurd hlt (Nat.not_lt.mpr hj)
    · refine hsettled.of_le List.prefix_rfl (List.prefix_append _ _) ?_ ?_ fun st _ => ?_
      · exact Finmap.lookup_insert_of_ne _ (Ne.symm hg)
      · rw [firstSize_snoc]
        simp [Event.firstOf, hg]
      · rw [hcall]
        exact Nat.le_refl _
  | @copies r hcall hend =>
    have hfirst := firstSize_copied f s.history r
    by_cases hr : r.filePath = f
    · intro st first hst hfirst' j hj hlt
      subst hr
      rw [settledPosition_of_pending rfl rfl] at hlt
      have hcalled := hgrowing.call
      rw [hcall] at hcalled
      obtain ⟨-, -, st', hst', hle⟩ := hcalled rfl
      refine (hsettled st' first hst' (hfirst ▸ hfirst') j hj ?_).mono List.prefix_rfl
        (List.prefix_append _ _)
      rw [hcall]
      exact hlt.trans_le hle
    · refine hsettled.of_le List.prefix_rfl (List.prefix_append _ _) ?_ hfirst fun st _ => ?_
      · exact Finmap.lookup_insert_of_ne _ (Ne.symm hr)
      · rw [hcall, settledPosition_of_other]
        · exact Nat.le_refl _
        · intro r' hr'
          obtain rfl : r = r' := Option.some.inj hr'
          exact hr
  | @syncFails r hcall =>
    refine settledDelivered_return hgrowing hsettled (by rw [hcall]; rfl) false ?_
    exact fun hr hne => absurd (hdelivers.1 rfl r hcall hr) hne
  | @posts r w hcall =>
    refine settledDelivered_return hgrowing hsettled (by rw [hcall]; rfl) _ ?_
    exact fun hr hne => hdelivers.2 w rfl r hcall hr hne

theorem unseen_step (h : Unseen f s) (hstep : step o endpoint s a = some t) : Unseen f t := by
  cases moves_of_step hstep with
  | initializes seek hcall hlookup =>
    intro hnone
    rename_i filePath pid size
    by_cases hg : f = filePath
    · subst hg
      rw [Finmap.lookup_insert] at hnone
      cases hnone
    · rw [Finmap.lookup_insert_of_ne _ hg] at hnone
      rw [firstSize_snoc, h hnone]
      exact if_neg (Ne.symm hg)
  | copies hcall hend =>
    intro hnone
    rename_i r
    by_cases hr : f = r.filePath
    · subst hr
      rw [Finmap.lookup_insert] at hnone
      cases hnone
    · rw [Finmap.lookup_insert_of_ne _ hr] at hnone
      rw [firstSize_copied, h hnone]
  | syncFails | posts => exact fun hnone => (firstSize_returned _ _ _ _).trans (h hnone)
  | _ => exact h

theorem delivering_step (h : Delivering f s) (hgrow : Grows f a)
    (hstep : step o endpoint s a = some t) (hdelivers : Delivers o endpoint f s a t) :
    Delivering f t := by
  refine ⟨growing_step h.growing hgrow hstep, unseen_step h.unseen hstep,
    settledDelivered_step h hgrow hstep hdelivers, ?_⟩
  have hfailed := h.failed
  have hsnoc : ∀ e : Event, (∀ r, e = .returned r false → r.filePath = f → r.dst = []) →
      ∀ r, .returned r false ∈ s.history ++ [e] → r.filePath = f → r.dst = [] := by
    intro e he r hr
    rcases List.mem_append.mp hr with hr | hr
    · exact hfailed r hr
    · exact he r (List.mem_singleton.mp hr).symm
  cases moves_of_step hstep with
  | initializes | copies => exact hsnoc _ fun r he => nomatch he
  | syncFails hcall =>
    refine hsnoc _ fun r he hr => ?_
    cases he
    exact hdelivers.1 rfl _ hcall hr
  | posts w hcall =>
    refine hsnoc _ fun r he hr => ?_
    obtain ⟨rfl, hok⟩ := Event.returned.inj he
    by_contra hne
    exact absurd ((hdelivers.2 w rfl _ hcall hr hne).symm.trans hok) (by decide)
  | _ => exact hfailed

theorem delivering_init (f : GoString) (files : GoString → GoString) :
    Delivering f (init files) := by
  refine ⟨growing_init f files, fun _ => rfl, fun st first hst => ?_, fun r hr => ?_⟩
  · exact GoMap.forall_empty (fun _ _ => _) f st hst
  · cases hr

theorem nothingLost_of_delivering (h : Delivering f s) : NothingLost f s ∧ RetriesFailed f s := by
  constructor
  · intro hidle st first hst hfirst j hj hlt
    refine h.settled st first hst hfirst j hj ?_
    rwa [hidle, settledPosition_idle]
  · intro _ r hlast hr hne
    exact absurd (h.failed r (List.mem_of_getLast? hlast) hr) hne

/-- A call that copied something and does not deliver it leaves the position behind it. -/
theorem delivers_of_retriesFailed (h : Growing f s) (hstep : step o endpoint s a = some t)
    (hretries : RetriesFailed f t) : Delivers o endpoint f s a t := by
  have hfalse : ∀ r, s.call.pending = some r → r.filePath = f → r.dst ≠ [] →
      t.call = .idle → t.readStats = s.readStats →
      t.history = s.history ++ [.returned r false] → False := by
    intro r hpending hr hne hidle hstats hhistory
    obtain ⟨-, st, hst, hposition⟩ := pending_entry h hpending hr
    have hle := hretries hidle r (by rw [hhistory, List.getLast?_concat]) hr hne st
      (by rw [hstats, hst])
    have hpos := List.length_pos_iff.mpr hne
    rw [hposition, Reading.offset] at hle
    omega
  constructor
  · rintro rfl r hcall hr
    by_contra hne
    cases moves_of_step hstep with
    | abandons ha => cases ha
    | syncFails hcall' =>
      obtain rfl := Call.copied.inj (hcall'.symm.trans hcall)
      exact hfalse _ (by rw [hcall]; rfl) hr hne rfl rfl rfl
  · rintro w rfl r hcall hr hne
    by_contra hok
    cases moves_of_step hstep with
    | abandons ha => cases ha
    | posts w hcall' =>
      obtain rfl := Call.synced.inj (hcall'.symm.trans hcall)
      refine hfalse _ (by rw [hcall]; rfl) hr hne rfl rfl ?_
      rw [Bool.eq_false_iff.mpr hok]

/-- No byte is lost, and failed calls are repeated, in every state of a run exactly when
every call of the run that copied something of the file also synced and posted it. -/
theorem nothingLost_iff {files : GoString → GoString} {as : List Action}
    (hgrow : ∀ a ∈ as, Grows f a) :
    Throughout (step o endpoint) (fun s => NothingLost f s ∧ RetriesFailed f s) (init files) as ↔
      Along (step o endpoint) (Delivers o endpoint f) (init files) as := by
  have hgrows := along_of_forall_mem (step o endpoint) hgrow (init files)
  constructor
  · intro h
    refine along_of_throughout (J := Growing f) ?_ ?_ (growing_init f files) hgrows h
    · exact fun _ _ _ hs hstep hg => growing_step hs hg hstep
    · exact fun _ _ _ hs hstep ht => delivers_of_retriesFailed hs hstep ht.2
  · intro h
    refine throughout_of_along (I := Delivering f) ?_ ?_ (delivering_init f files)
      (along_and hgrows h)
    · exact fun _ _ _ hs hstep hg => delivering_step hs hg.1 hstep hg.2
    · exact fun _ hs => nothingLost_of_delivering hs

def serverError : PostWorld := ⟨none, none, none, none, none, 500, .ok []⟩

/-- A call that copies a new byte and gets an error status from the server. -/
def refusedRun : List Action :=
  [.stat (str "a.log") 1, .openSeek .ok, .append (str "a.log") (str "1"),
   .stat (str "a.log") 1, .openSeek .ok, .create [], .read 100, .copyEnds, .sync, .post serverError]

/-- The refused byte lies below the position and no call delivered it. -/
theorem refused_byte_is_lost : ∃ s,
    run (step defaultOptions []) (init fun _ => []) refusedRun = some s ∧
      (∀ a ∈ refusedRun, Grows (str "a.log") a) ∧
      ¬ NothingLost (str "a.log") s ∧ ¬ RetriesFailed (str "a.log") s := by
  refine ⟨_, rfl, ?_, fun h => ?_, fun h => ?_⟩
  · rintro a ha bytes rfl
    simp [refusedRun] at ha
  · obtain ⟨r, hr, -⟩ := h rfl ⟨str "a.log", 1, 1⟩ 0 rfl rfl 0 (by decide) (by decide)
    change Event.returned r true ∈ [Event.initialized (str "a.log") 0,
      .copied ⟨str "a.log", 1, 1, 0, str "1.appLogs.a.log", str "1"⟩,
      .returned ⟨str "a.log", 1, 1, 0, str "1.appLogs.a.log", str "1"⟩ false] at hr
    simp at hr
  · have hle := h rfl ⟨str "a.log", 1, 1, 0, str "1.appLogs.a.log", str "1"⟩ rfl rfl (by decide)
      ⟨str "a.log", 1, 1⟩ rfl
    exact absurd hle (by decide)

theorem nothingLost_iff_refusedRun :
    Throughout (step defaultOptions [])
        (fun s => NothingLost (str "a.log") s ∧ RetriesFailed (str "a.log") s)
        (init fun _ => []) refusedRun ↔
      Along (step defaultOptions []) (Delivers defaultOptions [] (str "a.log"))
        (init fun _ => []) refusedRun :=
  nothingLost_iff (by
    rintro a ha bytes rfl
    simp [refusedRun] at ha)

end YcAgent.Capture.AppLogM3
