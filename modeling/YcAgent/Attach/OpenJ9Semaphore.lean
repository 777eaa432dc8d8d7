import YcAgent.Attach.OpenJ9Exclusion

/-!
# The semaphore that JVMs wait on

A client posts once for every JVM and then takes back what no JVM has taken. Only the client
with the attach lock does so, and what is posted does not add up over attaches.
-/
namespace YcAgent.Attach.OpenJ9

open Go hiding atoi

variable {ι : Type*}

/-- The posts that the client has yet to take back, as far as they are still there. -/
def Client.owed (c : Client) : ℕ :=
  match c.pc with
  | .post => c.notifLock.length - c.notifCount
  | .accept | .unlinkReply | .closeSocket | .unlock | .withdrawNotify => c.notifLock.length
  | .withdraw => c.notifCount
  | _ => 0

theorem Client.owed_of_not_critical {c : Client} (h : c.pc.critical = false) : c.owed = 0 := by
  unfold Client.owed
  cases hpc : c.pc <;> rw [hpc] at h <;> first | rfl | cases h

/-- The loops of `notify_semaphore` count down from the number of locks. -/
def Pc.counts : Pc → Bool
  | .post | .withdraw => true
  | _ => false

def Client.Counted (c : Client) : Prop :=
  c.pc.counts = true → c.notifCount ≤ c.notifLock.length

/-- The call does not leave posts behind: the client is not killed, and gets at the semaphore,
while it has any to take back. -/
def Client.Settles (c : Client) : Call → Prop
  | .kill => c.owed = 0
  | .semget false => c.pc = .withdrawNotify → c.owed = 0
  | _ => True

section

variable [DecidableEq ι]

/-- A call posts no more than the client then owes. -/
theorem Client.step_sem {i : ι} {c c' : Client} {w w' : Shared ι} {call : Call} {base : ℕ}
    (hstep : c.step i w call = some (c', w')) (hsettles : c.Settles call) (hcount : c.Counted)
    (h : w.sem ≤ base + c.owed) : c'.Counted ∧ w'.sem ≤ base + c'.owed := by
  have hquiet : w'.sem = w.sem → c.owed ≤ c'.owed → c'.Counted →
      c'.Counted ∧ w'.sem ≤ base + c'.owed := by
    intro hsem howed hcount'
    exact ⟨hcount', by omega⟩
  unfold Client.step at hstep
  split at hstep
  · rename_i hpc
    split at hstep
    · split at hstep
      · obtain ⟨rfl, rfl⟩ := Prod.mk.inj (Option.some.inj hstep)
        exact hquiet rfl (by simp only [Client.owed, hpc, Nat.le_refl]) nofun
      · cases hstep
    · obtain ⟨rfl, rfl⟩ := Prod.mk.inj (Option.some.inj hstep)
      exact hquiet rfl (by simp only [Client.owed, hpc, Nat.le_refl]) nofun
  · rename_i hpc
    split at hstep
    · obtain ⟨rfl, rfl⟩ := Prod.mk.inj (Option.some.inj hstep)
      exact hquiet rfl (by simp only [Client.owed, hpc, Nat.le_refl]) nofun
    · obtain ⟨rfl, rfl⟩ := Prod.mk.inj (Option.some.inj hstep)
      exact hquiet rfl (by simp only [Client.owed, hpc, Nat.le_refl]) nofun
  · rename_i hpc
    split at hstep
    · obtain ⟨rfl, rfl⟩ := Prod.mk.inj (Option.some.inj hstep)
      exact hquiet rfl (by simp only [Client.owed, hpc, Nat.le_refl]) nofun
    · obtain ⟨rfl, rfl⟩ := Prod.mk.inj (Option.some.inj hstep)
      exact hquiet rfl (by simp only [Client.owed, hpc, Nat.zero_le]) nofun
  · rename_i hpc
    obtain ⟨rfl, rfl⟩ := Prod.mk.inj (Option.some.inj hstep)
    exact hquiet rfl (by simp only [Client.owed, hpc, Nat.le_refl]) nofun
  · rename_i hpc
    have hstay : ∀ {d : Client}, d.pc = c.pc → d.Counted := by
      intro d hd hcounts
      rw [hd, hpc] at hcounts
      cases hcounts
    split at hstep
    · split at hstep
      · split at hstep
        · split at hstep
          · obtain ⟨rfl, rfl⟩ := Prod.mk.inj (Option.some.inj hstep)
            exact hquiet rfl (by simp only [Client.owed, hpc, Nat.le_refl]) (hstay rfl)
          · cases hstep
        · obtain ⟨rfl, rfl⟩ := Prod.mk.inj (Option.some.inj hstep)
          exact hquiet rfl (by simp only [Client.owed, hpc, Nat.le_refl]) (hstay rfl)
      · obtain ⟨rfl, rfl⟩ := Prod.mk.inj (Option.some.inj hstep)
        exact hquiet rfl (Nat.le_refl _) hcount
    · cases hstep
  · rename_i hpc
    obtain ⟨rfl, rfl⟩ := Prod.mk.inj (Option.some.inj hstep)
    exact hquiet rfl (by simp only [Client.owed, hpc, Nat.le_refl]) nofun
  · rename_i hpc
    split at hstep
    · obtain ⟨rfl, rfl⟩ := Prod.mk.inj (Option.some.inj hstep)
      exact hquiet rfl (by simp only [Client.owed, hpc, Nat.zero_le]) fun _ => Nat.le_refl _
    · obtain ⟨rfl, rfl⟩ := Prod.mk.inj (Option.some.inj hstep)
      exact hquiet rfl (by simp only [Client.owed, hpc, Nat.zero_le]) nofun
  · rename_i hpc
    split at hstep
    · obtain ⟨rfl, rfl⟩ := Prod.mk.inj (Option.some.inj hstep)
      have hle : c.notifCount ≤ c.notifLock.length := hcount (by rw [hpc]; rfl)
      refine ⟨fun _ => Nat.le_trans (Nat.sub_le _ 1) hle, ?_⟩
      simp only [Client.owed, hpc] at h ⊢
      split
      · show w.sem + 1 ≤ _
        omega
      · omega
    · cases hstep
  · rename_i hpc
    split at hstep
    · rename_i hzero
      obtain ⟨rfl, rfl⟩ := Prod.mk.inj (Option.some.inj hstep)
      exact hquiet rfl (by simp only [Client.owed, hpc, hzero, Nat.sub_zero, Nat.le_refl]) nofun
    · cases hstep
  · rename_i hpc
    obtain ⟨rfl, rfl⟩ := Prod.mk.inj (Option.some.inj hstep)
    exact hquiet rfl (by simp only [Client.owed, hpc, Nat.le_refl]) nofun
  · rename_i ok hpc
    obtain ⟨rfl, rfl⟩ := Prod.mk.inj (Option.some.inj hstep)
    exact hquiet (by cases ok <;> rfl) (by simp only [Client.owed, hpc, Nat.le_refl]) nofun
  · rename_i hpc
    obtain ⟨rfl, rfl⟩ := Prod.mk.inj (Option.some.inj hstep)
    exact hquiet rfl (by simp only [Client.owed, hpc, Nat.le_refl]) nofun
  · rename_i hpc
    have hstay : ∀ {d : Client}, d.pc = c.pc → d.Counted := by
      intro d hd hcounts
      rw [hd, hpc] at hcounts
      cases hcounts
    split at hstep
    · obtain ⟨rfl, rfl⟩ := Prod.mk.inj (Option.some.inj hstep)
      exact hquiet rfl (by simp only [Client.owed, hpc, Nat.le_refl]) (hstay rfl)
    · obtain ⟨rfl, rfl⟩ := Prod.mk.inj (Option.some.inj hstep)
      exact hquiet rfl (by simp only [Client.owed, hpc, Nat.le_refl]) (hstay rfl)
    · cases hstep
  · rename_i hpc
    split at hstep
    · obtain ⟨rfl, rfl⟩ := Prod.mk.inj (Option.some.inj hstep)
      refine hquiet rfl ?_ ?_
      · by_cases hmore : c.connected = true ∨ c.notifLock ≠ []
        · simp only [Client.owed, hpc, if_pos hmore, Nat.le_refl]
        · obtain ⟨-, hnone⟩ := not_or.mp hmore
          simp only [Client.owed, hpc, not_not.mp hnone, List.length_nil, Nat.zero_le]
      · show Pc.counts (if _ then _ else _) = true → _
        split <;> nofun
    · cases hstep
  · rename_i hpc
    split at hstep
    · obtain ⟨rfl, rfl⟩ := Prod.mk.inj (Option.some.inj hstep)
      exact hquiet rfl (by simp only [Client.owed, hpc, Nat.le_refl]) fun _ => Nat.le_refl _
    · rename_i hfails
      rw [Bool.not_eq_true] at hfails
      subst hfails
      obtain ⟨rfl, rfl⟩ := Prod.mk.inj (Option.some.inj hstep)
      exact hquiet rfl (by rw [hsettles hpc]; exact Nat.zero_le _) nofun
  · rename_i hpc
    split at hstep
    · rename_i hmore
      obtain ⟨rfl, rfl⟩ := Prod.mk.inj (Option.some.inj hstep)
      have hle : c.notifCount ≤ c.notifLock.length := hcount (by rw [hpc]; rfl)
      refine ⟨fun _ => Nat.le_trans (Nat.sub_le _ 1) hle, ?_⟩
      simp only [Client.owed, hpc] at h ⊢
      omega
    · cases hstep
  · rename_i hpc
    split at hstep
    · rename_i hzero
      obtain ⟨rfl, rfl⟩ := Prod.mk.inj (Option.some.inj hstep)
      exact hquiet rfl (by simp only [Client.owed, hpc, hzero, Nat.le_refl]) nofun
    · cases hstep
  · rename_i hpc
    obtain ⟨rfl, rfl⟩ := Prod.mk.inj (Option.some.inj hstep)
    exact hquiet rfl (by simp only [Client.owed, hpc, Nat.le_refl]) nofun
  · cases hstep
  · cases hstep
  · obtain ⟨rfl, rfl⟩ := Prod.mk.inj (Option.some.inj hstep)
    exact hquiet rfl (by rw [show c.owed = 0 from hsettles]; exact Nat.zero_le _) nofun
  · cases hstep

/-- A client without the attach lock does not touch the semaphore. -/
theorem Client.sem_of_not_critical {i : ι} {c c' : Client} {w w' : Shared ι} {call : Call}
    (hcrit : c.pc.critical = false) (hstep : c.step i w call = some (c', w')) :
    w'.sem = w.sem := by
  unfold Client.step at hstep
  split at hstep
  case h_1 hpc =>
    split at hstep
    · split at hstep
      · obtain ⟨-, rfl⟩ := Prod.mk.inj (Option.some.inj hstep)
        rfl
      · cases hstep
    · obtain ⟨-, rfl⟩ := Prod.mk.inj (Option.some.inj hstep)
      rfl
  case h_21 =>
    obtain ⟨-, rfl⟩ := Prod.mk.inj (Option.some.inj hstep)
    rfl
  all_goals
    first
      | rename_i hpc
        exact absurd hcrit (by rw [hpc]; decide)
      | cases hstep

/-! ## All clients and JVMs -/

def System.owed (sys : System ι) : ℕ :=
  match sys.shared.attachLock with
  | none => 0
  | some i => (sys.client i).owed

def System.Settles (sys : System ι) : Action ι → Prop
  | .client i call => (sys.client i).Settles call
  | _ => True

structure System.Balanced (base : ℕ) (sys : System ι) : Prop where
  inv : sys.Inv fun _ => True
  counted : ∀ i, (sys.client i).Counted
  sem : sys.shared.sem ≤ base + sys.owed

omit [DecidableEq ι] in
theorem System.owed_of_holder {sys : System ι} {i : ι} (h : sys.shared.attachLock = some i) :
    sys.owed = (sys.client i).owed := by
  rw [System.owed, h]

/-- A client without the lock owes nothing, so the one with it may be taken to be any. -/
theorem System.Balanced.next {base : ℕ} {sys t : System ι} {a : Action ι} (h : sys.Balanced base)
    (hstep : sys.step a = some t) (hsettles : sys.Settles a) : t.Balanced base := by
  have hinv := h.inv.next hstep fun _ _ => trivial
  cases a with
  | client i call =>
    obtain ⟨⟨c', w'⟩, hc, rfl⟩ := Option.map_eq_some_iff.mp hstep
    obtain ⟨hholds, hleaves⟩ := Client.step_holds (h.inv.holds i) hc
    have hsem := h.sem
    have hbound : w'.sem ≤ base + System.owed ⟨Function.update sys.client i c', w'⟩ ∧
        c'.Counted := by
      by_cases hcrit : (sys.client i).pc.critical = true
      · have hlock := (h.inv.holds i).lock.mpr hcrit
        rw [System.owed_of_holder hlock] at hsem
        obtain ⟨hcounted, hless⟩ := Client.step_sem hc hsettles (h.counted i) hsem
        refine ⟨?_, hcounted⟩
        cases hlock' : w'.attachLock with
        | none =>
          have hfree := hholds.lock.not.mp (by rw [hlock']; exact nofun)
          rw [Client.owed_of_not_critical (Bool.not_eq_true _ ▸ hfree)] at hless
          exact Nat.le_trans hless (Nat.le_add_right _ _)
        | some j =>
          by_cases hj : j = i
          · subst hj
            rw [System.owed_of_holder hlock']
            simp only [Function.update_self]
            exact hless
          · have hother := (hleaves.lock j hj).mp hlock'
            rw [hlock] at hother
            exact absurd (Option.some.inj hother).symm hj
      · have hfree : (sys.client i).pc.critical = false := by simpa using hcrit
        have howes := Client.owed_of_not_critical hfree
        obtain ⟨hcounted, -⟩ := Client.step_sem hc hsettles
          (h.counted i) (by rw [howes]; exact hsem)
        refine ⟨?_, hcounted⟩
        rw [Client.sem_of_not_critical hfree hc]
        have hothers : ∀ j, sys.shared.attachLock = some j → j ≠ i := by
          rintro j hj rfl
          exact hcrit ((h.inv.holds j).lock.mp hj)
        cases hlock : sys.shared.attachLock with
        | none =>
          rw [System.owed, hlock] at hsem
          exact Nat.le_trans hsem (Nat.le_add_right _ _)
        | some j =>
          have hj := hothers j hlock
          have hlock' : w'.attachLock = some j := (hleaves.lock j hj).mpr hlock
          rw [System.owed_of_holder hlock] at hsem
          rw [System.owed_of_holder hlock']
          simp only [Function.update_of_ne hj]
          exact hsem
    refine ⟨hinv, fun j => ?_, hbound.1⟩
    by_cases hj : j = i
    · subst hj
      simp only [Function.update_self]
      exact hbound.2
    · simp only [Function.update_of_ne hj]
      exact h.counted j
  | jvmWaits =>
    simp only [System.step] at hstep
    split at hstep
    · obtain rfl := Option.some.inj hstep
      exact ⟨hinv, h.counted, Nat.le_trans (Nat.sub_le _ 1) h.sem⟩
    · cases hstep
  | jvmLocks name =>
    simp only [System.step] at hstep
    split at hstep
    · obtain rfl := Option.some.inj hstep
      exact ⟨hinv, h.counted, h.sem⟩
    · cases hstep
  | jvmUnlocks name =>
    simp only [System.step] at hstep
    split at hstep
    · obtain rfl := Option.some.inj hstep
      exact ⟨hinv, h.counted, h.sem⟩
    · cases hstep

theorem Client.owed_le {c : Client} (h : c.Counted) : c.owed ≤ c.notifLock.length := by
  unfold Client.owed
  split
  case h_7 hpc => exact h (by rw [hpc]; rfl)
  all_goals omega

omit [DecidableEq ι] in
theorem System.Inv.owed_le {stuck : ι → Prop} {sys : System ι} (h : sys.Inv stuck)
    (hcounted : ∀ i, (sys.client i).Counted) : sys.owed ≤ maxNotifFiles := by
  unfold System.owed
  split
  · exact Nat.zero_le _
  · rename_i i _
    exact Nat.le_trans (Client.owed_le (hcounted i)) (h.holds i).le

/-- However clients and JVMs run, posts do not add up: there are at most as many as the client
with the attach lock owes, and between attaches not more than at the start. -/
theorem semaphore_settles {sys t : System ι} (hstart : sys.Start) {as : List (Action ι)}
    (hrun : Transition.run System.step sys as = some t)
    (hsettles : Transition.Along System.step (fun s a _ => s.Settles a) sys as) :
    t.shared.sem ≤ sys.shared.sem + t.owed ∧ t.owed ≤ maxNotifFiles ∧
      (t.shared.attachLock = none → t.shared.sem ≤ sys.shared.sem) := by
  have hcounted : ∀ i, (sys.client i).Counted := by
    intro i hcounts
    rw [hstart.pc i] at hcounts
    cases hcounts
  have hbalanced : t.Balanced sys.shared.sem :=
    Transition.run_invariant_along (fun _ _ _ hI hstep hP => hI.next hstep hP)
      ⟨hstart.inv, hcounted, Nat.le_add_right _ _⟩ hsettles hrun
  refine ⟨hbalanced.sem, hbalanced.inv.owed_le hbalanced.counted, fun hfree => ?_⟩
  have hsem := hbalanced.sem
  rw [System.owed, hfree] at hsem
  exact hsem

end

/-- A client posts for a JVM, and the JVM takes the post. -/
def postedAttach : List (Action ℕ) :=
  [.client 7 (.acquireLock true), .client 7 (.createSocket (some 40000)),
    .client 7 (.openReply true), .client 7 (.writeReply 5 99),
    .client 7 (.entry (str "7") true true), .client 7 .endOfDir, .client 7 (.semget true),
    .client 7 (.semop true), .jvmWaits]

theorem semaphore_settles_posted :
    let t := (Transition.run System.step untouched postedAttach).get rfl
    t.shared.sem ≤ untouched.shared.sem + t.owed ∧ t.owed ≤ maxNotifFiles ∧
      (t.shared.attachLock = none → t.shared.sem ≤ untouched.shared.sem) :=
  semaphore_settles start_untouched (Option.some_get _).symm
    (fun _ _ => ⟨trivial, fun _ _ => ⟨trivial, fun _ _ => ⟨trivial, fun _ _ => ⟨trivial, fun _ _ =>
      ⟨trivial, fun _ _ => ⟨trivial, fun _ _ => ⟨trivial, fun _ _ => ⟨trivial, fun _ _ =>
        ⟨trivial, trivial⟩⟩⟩⟩⟩⟩⟩⟩⟩)

end YcAgent.Attach.OpenJ9
