import Mathlib.Tactic.Ring
import YcAgent.Base.CString
import YcAgent.Base.Loop

/-!
# The attach listener of a HotSpot JVM

`start_attach_mechanism` of `jattach_hotspot.c`. The JVM opens its socket on a SIGQUIT, if
it then finds the trigger file; the client looks for the socket until it is there or the
delays have reached half a second.
-/
namespace YcAgent.Attach.HotSpot

open Go hiding atoi
open CString

/-- What the calls of the operating system answer. -/
structure Host where
  creat : GoString → Bool
  /-- `close` returns 0 -/
  close : Bool
  /-- `st_uid`, where `stat` succeeds -/
  owner : GoString → Option ℕ
  geteuid : ℕ
  unlink : GoString → Bool
  /-- `.java_pid` is a socket so many nanoseconds after the signal -/
  listening : ℕ → Bool

structure World where
  files : List GoString
  /-- the processes that SIGQUIT was sent to -/
  killed : List ℤ
  /-- nanoseconds -/
  slept : ℕ

def World.creat (h : Host) (path : GoString) (w : World) : Bool × World :=
  if h.creat path then (true, { w with files := w.files.insert path }) else (false, w)

def World.unlink (h : Host) (path : GoString) (w : World) : World :=
  if h.unlink path then { w with files := w.files.filter (· ≠ path) } else w

/-- `get_file_owner`, with `(uid_t)-1` where `stat` fails. -/
def getFileOwner (h : Host) (path : GoString) : ℕ := (h.owner path).getD (2 ^ 32 - 1)

def cwdTrigger (nspid : ℤ) : GoString :=
  str "/proc/" ++ itoa nspid ++ str "/cwd/.attach_pid" ++ itoa nspid

def tmpTrigger (tmpPath : GoString) (nspid : ℤ) : GoString :=
  tmpPath ++ str "/.attach_pid" ++ itoa nspid

/-- A turn of the loop: the delay of the next sleep, and what was slept before. -/
def waitTurn (h : Host) (st : ℕ × ℕ) : (ℤ × ℕ) ⊕ (ℕ × ℕ) :=
  let slept := st.2 + st.1
  let result : ℤ := if h.listening slept then 0 else -1
  let delay := st.1 + 20000000
  if result ≠ 0 ∧ delay < 500000000 then .inr (delay, slept) else .inl (result, slept)

/-- One turn for each delay below half a second. -/
def waitTurns : ℕ := 500000000 / 20000000

/-- The trigger file that is there for the JVM, if one is. -/
def createTrigger (h : Host) (tmpPath : GoString) (nspid : ℤ) (w : World) :
    Option GoString × World :=
  let path := cwdTrigger nspid
  let (fd, w) := w.creat h path
  if !fd || (h.close && getFileOwner h path ≠ h.geteuid) then
    let w := w.unlink h path
    let path := tmpTrigger tmpPath nspid
    let (fd, w) := w.creat h path
    if !fd then (none, w) else (some path, w)
  else (some path, w)

def startAttachMechanism (h : Host) (tmpPath : GoString) (pid nspid : ℤ) (w : World) :
    Option (ℤ × World) :=
  match createTrigger h tmpPath nspid w with
  | (none, w) => some (-1, w)
  | (some path, w) =>
    let w := { w with killed := w.killed ++ [pid] }
    (Loop.run (waitTurn h) waitTurns (20000000, 0)).map fun (result, slept) =>
      (result, { w with slept := w.slept + slept }.unlink h path)

/-! ## Waiting for the listener -/

/-- The looks for the socket behind the signal. -/
def looks : ℕ := 24

/-- Nanoseconds slept at the look `k`, counted from zero. -/
def lookTime (k : ℕ) : ℕ := 10000000 * ((k + 1) * (k + 2))

/-- No look before `k` found the socket, and `st` is the state that leads to the look `k`. -/
structure Waiting (h : Host) (k : ℕ) (st : ℕ × ℕ) : Prop where
  lt : k < looks
  delay : st.1 = 20000000 * (k + 1)
  slept : st.2 + st.1 = lookTime k
  quiet : ∀ j < k, h.listening (lookTime j) = false

/-- What the loop returns. -/
structure Waited (h : Host) (result : ℤ) (slept : ℕ) : Prop where
  found : result = 0 → ∃ k < looks, slept = lookTime k ∧ h.listening slept = true ∧
    ∀ j < k, h.listening (lookTime j) = false
  gaveUp : result ≠ 0 → result = -1 ∧ slept = 6000000000 ∧
    ∀ j < looks, h.listening (lookTime j) = false

theorem Waiting.start (h : Host) : Waiting h 0 (20000000, 0) where
  lt := by decide
  delay := rfl
  slept := rfl
  quiet := fun _ hj => absurd hj (Nat.not_lt_zero _)

theorem lookTime_succ (k : ℕ) : lookTime (k + 1) = lookTime k + 20000000 * (k + 2) := by
  unfold lookTime
  ring

theorem lookTime_mono {j k : ℕ} (h : j ≤ k) : lookTime j ≤ lookTime k :=
  Nat.mul_le_mul_left _ (Nat.mul_le_mul (by omega) (by omega))

theorem Waiting.quiet_succ {h : Host} {k : ℕ} {st : ℕ × ℕ} (hw : Waiting h k st)
    (hnow : h.listening (lookTime k) = false) : ∀ j < k + 1, h.listening (lookTime j) = false := by
  intro j hj
  rcases Nat.lt_succ_iff_lt_or_eq.mp hj with hj | rfl
  · exact hw.quiet j hj
  · exact hnow

theorem Waiting.turn {h : Host} {k : ℕ} {st : ℕ × ℕ} (hw : Waiting h k st) :
    (∃ r, waitTurn h st = .inl r ∧ Waited h r.1 r.2) ∨
      ∃ t, waitTurn h st = .inr t ∧ Waiting h (k + 1) t := by
  have hk : k < 24 := hw.lt
  have hdelay := hw.delay
  cases hnow : h.listening (lookTime k) with
  | true =>
    refine Or.inl ⟨(0, lookTime k), ?_, fun _ => ⟨k, hk, rfl, hnow, hw.quiet⟩, by simp⟩
    simp only [waitTurn, hw.slept, hnow, if_true, ne_eq, not_true_eq_false, false_and, if_false]
  | false =>
    by_cases hmore : st.1 + 20000000 < 500000000
    · refine Or.inr ⟨(st.1 + 20000000, lookTime k), ?_, ?_, ?_, ?_, hw.quiet_succ hnow⟩
      · simp only [waitTurn, hw.slept, hnow, Bool.false_eq_true, if_false]
        exact if_pos ⟨by decide, hmore⟩
      · show k + 1 < 24
        omega
      · show st.1 + 20000000 = 20000000 * (k + 1 + 1)
        omega
      · show lookTime k + (st.1 + 20000000) = lookTime (k + 1)
        rw [lookTime_succ]
        omega
    · obtain rfl : k = 23 := by omega
      refine Or.inl ⟨(-1, lookTime 23), ?_, by simp, fun _ => ⟨rfl, by decide, ?_⟩⟩
      · simp only [waitTurn, hw.slept, hnow, Bool.false_eq_true, if_false]
        exact if_neg fun hboth => hmore hboth.2
      · exact hw.quiet_succ hnow

/-- The loop ends: the fuel that its definition has is one turn more than there are looks. -/
theorem exists_waited (h : Host) :
    ∃ result slept, Loop.run (waitTurn h) waitTurns (20000000, 0) = some (result, slept) ∧
      Waited h result slept := by
  have hturn : ∀ st : ℕ × ℕ, (∃ k, Waiting h k st) →
      (∃ r, waitTurn h st = .inl r ∧ Waited h r.1 r.2) ∨
        ∃ t, waitTurn h st = .inr t ∧ (∃ k, Waiting h k t) ∧
          (480000000 - t.1) / 20000000 < (480000000 - st.1) / 20000000 := by
    rintro st ⟨k, hw⟩
    rcases hw.turn with hdone | ⟨t, ht, hnext⟩
    · exact Or.inl hdone
    · refine Or.inr ⟨t, ht, ⟨k + 1, hnext⟩, ?_⟩
      have hk : k + 1 < 24 := hnext.lt
      rw [hw.delay, hnext.delay]
      omega
  obtain ⟨⟨result, slept⟩, hr, hw⟩ :=
    Loop.run_of_variant (fun st : ℕ × ℕ => (480000000 - st.1) / 20000000) hturn
      ⟨0, Waiting.start h⟩
  exact ⟨result, slept, Loop.run_stable hr (by decide), hw⟩

theorem Waited.slept_le {h : Host} {result : ℤ} {slept : ℕ} (hw : Waited h result slept) :
    slept ≤ 6000000000 := by
  by_cases hr : result = 0
  · obtain ⟨k, hk, rfl, -⟩ := hw.found hr
    have hk : k < 24 := hk
    exact lookTime_mono (k := 23) (by omega)
  · exact le_of_eq (hw.gaveUp hr).2.1

/-! ## The trigger file -/

/-- Nothing was added, but a file that could be created and not be removed again. -/
def Undone (h : Host) (w w' : World) : Prop :=
  ∀ f ∈ w'.files, f ∈ w.files ∨ (h.creat f = true ∧ h.unlink f = false)

/-- And `path`, by a call that could create it. -/
def AddedAt (h : Host) (path : GoString) (w w' : World) : Prop :=
  ∀ f ∈ w'.files, f ∈ w.files ∨ (h.creat f = true ∧ (f = path ∨ h.unlink f = false))

@[simp] theorem killed_creat (h : Host) (path : GoString) (w : World) :
    (w.creat h path).2.killed = w.killed := by
  unfold World.creat
  split <;> rfl

@[simp] theorem slept_creat (h : Host) (path : GoString) (w : World) :
    (w.creat h path).2.slept = w.slept := by
  unfold World.creat
  split <;> rfl

@[simp] theorem killed_unlink (h : Host) (path : GoString) (w : World) :
    (w.unlink h path).killed = w.killed := by
  unfold World.unlink
  split <;> rfl

@[simp] theorem slept_unlink (h : Host) (path : GoString) (w : World) :
    (w.unlink h path).slept = w.slept := by
  unfold World.unlink
  split <;> rfl

theorem fst_creat (h : Host) (path : GoString) (w : World) :
    (w.creat h path).1 = h.creat path := by
  unfold World.creat
  split <;> simp_all

theorem mem_files_creat {h : Host} {path : GoString} (hc : h.creat path = true) (w : World) :
    path ∈ (w.creat h path).2.files := by
  simp only [World.creat, hc, if_true]
  exact List.mem_insert_self

theorem Undone.refl (h : Host) (w : World) : Undone h w w := fun _ hf => Or.inl hf

theorem addedAt_creat (h : Host) (path : GoString) {w v : World} (hv : Undone h w v) :
    AddedAt h path w (v.creat h path).2 := by
  intro f hf
  have hback : f ∈ v.files →
      f ∈ w.files ∨ (h.creat f = true ∧ (f = path ∨ h.unlink f = false)) :=
    fun hf => (hv f hf).imp_right fun hboth => ⟨hboth.1, Or.inr hboth.2⟩
  unfold World.creat at hf
  split at hf
  · rename_i hc
    rcases List.mem_insert_iff.mp hf with rfl | hf
    · exact Or.inr ⟨hc, Or.inl rfl⟩
    · exact hback hf
  · exact hback hf

/-- The removal undoes the creation, where it does not fail. -/
theorem undone_unlink {h : Host} {path : GoString} {w v : World} (hv : AddedAt h path w v) :
    Undone h w (v.unlink h path) := by
  intro f hf
  unfold World.unlink at hf
  split at hf
  · simp only [List.mem_filter, decide_eq_true_eq] at hf
    exact (hv f hf.1).imp_right fun hboth => ⟨hboth.1, hboth.2.resolve_left hf.2⟩
  · rename_i hfails
    rcases hv f hf with hf | ⟨hc, rfl | hkept⟩
    · exact Or.inl hf
    · exact Or.inr ⟨hc, Bool.not_eq_true _ ▸ hfails⟩
    · exact Or.inr ⟨hc, hkept⟩

/-- The file that the JVM finds on the signal. -/
structure Trusted (h : Host) (tmpPath : GoString) (nspid : ℤ) (path : GoString) : Prop where
  creat : h.creat path = true
  place : (path = cwdTrigger nspid ∧ (h.close = true → getFileOwner h path = h.geteuid)) ∨
    path = tmpTrigger tmpPath nspid

/-- What `createTrigger` leads to. -/
structure Created (h : Host) (tmpPath : GoString) (nspid : ℤ) (w : World)
    (path? : Option GoString) (w' : World) : Prop where
  killed : w'.killed = w.killed
  slept : w'.slept = w.slept
  made : ∀ path ∈ path?, Trusted h tmpPath nspid path ∧ path ∈ w'.files ∧ AddedAt h path w w'
  failed : path? = none → Undone h w w' ∧ h.creat (tmpTrigger tmpPath nspid) = false

theorem createTrigger_created (h : Host) (tmpPath : GoString) (nspid : ℤ) (w : World) :
    Created h tmpPath nspid w (createTrigger h tmpPath nspid w).1
      (createTrigger h tmpPath nspid w).2 := by
  have hfirst := addedAt_creat h (cwdTrigger nspid) (Undone.refl h w)
  have hback := undone_unlink hfirst
  simp only [createTrigger, fst_creat]
  split
  · split
    · rename_i hfails
      refine ⟨by simp, by simp, by simp, fun _ => ⟨?_, by simpa using hfails⟩⟩
      have hsame : ∀ v : World, (v.creat h (tmpTrigger tmpPath nspid)).2 = v := by
        intro v
        rw [World.creat, if_neg (by simpa using hfails)]
      rw [hsame]
      exact hback
    · rename_i hmade
      have hmade : h.creat (tmpTrigger tmpPath nspid) = true := by simpa using hmade
      refine ⟨by simp, by simp, ?_, by simp⟩
      rintro path ⟨⟩
      exact ⟨⟨hmade, Or.inr rfl⟩, mem_files_creat hmade _, addedAt_creat h _ hback⟩
  · rename_i hgood
    simp only [Bool.or_eq_true, Bool.not_eq_true', Bool.and_eq_true, decide_eq_true_eq, not_or,
      Bool.not_eq_false, not_and, not_not] at hgood
    refine ⟨by simp, by simp, ?_, by simp⟩
    rintro path ⟨⟩
    exact ⟨⟨hgood.1, Or.inl ⟨rfl, hgood.2⟩⟩, mem_files_creat hgood.1 w, hfirst⟩

/-- What `start_attach_mechanism` has done. -/
structure Started (h : Host) (tmpPath : GoString) (pid nspid : ℤ) (w : World) (result : ℤ)
    (w' : World) : Prop where
  /-- no trigger file stays behind, but where it could not be removed -/
  files : Undone h w w'
  signalled : (w'.killed = w.killed ++ [pid] ∧ (∃ path, Trusted h tmpPath nspid path) ∧
      w.slept ≤ w'.slept ∧ Waited h result (w'.slept - w.slept)) ∨
    (w'.killed = w.killed ∧ h.creat (tmpTrigger tmpPath nspid) = false ∧ result = -1 ∧
      w'.slept = w.slept)

theorem exists_started (h : Host) (tmpPath : GoString) (pid nspid : ℤ) (w : World) :
    ∃ result w', startAttachMechanism h tmpPath pid nspid w = some (result, w') ∧
      Started h tmpPath pid nspid w result w' := by
  have hcreated := createTrigger_created h tmpPath nspid w
  unfold startAttachMechanism
  generalize createTrigger h tmpPath nspid w = created at hcreated
  obtain ⟨path?, v⟩ := created
  cases path? with
  | none =>
    obtain ⟨hfiles, htmp⟩ := hcreated.failed rfl
    exact ⟨-1, v, rfl, hfiles, Or.inr ⟨hcreated.killed, htmp, rfl, hcreated.slept⟩⟩
  | some path =>
    obtain ⟨htrusted, -, hadded⟩ := hcreated.made path rfl
    obtain ⟨result, slept, hrun, hwaited⟩ := exists_waited h
    simp only [hrun, Option.map_some]
    refine ⟨result, _, rfl, ?_, Or.inl ⟨?_, ⟨path, htrusted⟩, ?_⟩⟩
    · exact undone_unlink hadded
    · have hv : v.killed = w.killed := hcreated.killed
      simp only [killed_unlink, hv]
    · have hv : v.slept = w.slept := hcreated.slept
      simp only [slept_unlink, hv]
      refine ⟨Nat.le_add_right _ _, ?_⟩
      rw [Nat.add_sub_cancel_left]
      exact hwaited

end YcAgent.Attach.HotSpot
