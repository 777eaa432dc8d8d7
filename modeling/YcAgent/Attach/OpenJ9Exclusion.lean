import Mathlib.Data.List.Nodup
import YcAgent.Attach.OpenJ9

/-!
# Attaches exclude one another

What a client has in the shared directory follows from where it is in its program. From that:
one client at a time, its own reply file in place while it waits, and no lock of it left when
it is done, nor its reply file where that could be removed.
-/
namespace YcAgent.Attach.OpenJ9

open Go hiding atoi

variable {ι : Type*}

/-! ## What a client holds -/

/-- Behind the lock that one client has at a time. -/
def Pc.critical : Pc → Bool
  | .acquire | .done | .killed => false
  | _ => true

/-- The reply file is there and is not written any more. -/
def Pc.answerable : Pc → Bool
  | .readDir | .notify | .post | .accept => true
  | _ => false

/-- The reply file may be there. -/
def Pc.described : Pc → Bool
  | .writeReply | .readDir | .notify | .post | .accept | .unlinkReply => true
  | _ => false

/-- No notification lock has been released. -/
def Pc.early : Pc → Bool
  | .acquire | .createSocket | .openReply | .writeReply | .readDir | .notify | .post | .accept
  | .unlinkReply | .closeSocket => true
  | _ => false

/-- No notification lock is held. -/
def Pc.bare : Pc → Bool
  | .acquire | .createSocket | .openReply | .writeReply | .withdrawNotify | .withdraw | .release
  | .done | .killed => true
  | _ => false

/-- The directories whose notification locks are held. -/
def Client.held (c : Client) : List GoString := (c.notifLock.drop c.i).filterMap id

/-- What the state of the client `i` says about the files. -/
structure Client.Holds (i : ι) (c : Client) (w : Shared ι) : Prop where
  lock : w.attachLock = some i ↔ c.pc.critical = true
  notif : ∀ name, w.notif name = some (.client i) ↔ name ∈ c.held
  nodup : c.held.Nodup
  reply : c.pc.answerable = true → w.replyInfo c.nspid = some c.reply
  early : c.pc.early = true → c.i = 0
  bare : c.pc.bare = true → c.held = []
  le : c.notifLock.length ≤ maxNotifFiles

/-- What a call of the client `i` does to the others. -/
structure Client.Leaves (i : ι) (c c' : Client) (w w' : Shared ι) : Prop where
  nspid : c'.nspid = c.nspid
  lock : ∀ j ≠ i, w'.attachLock = some j ↔ w.attachLock = some j
  notif : ∀ name, ∀ j ≠ i, w'.notif name = some (.client j) ↔ w.notif name = some (.client j)
  /-- only the reply file of its own JVM, under the lock -/
  reply : ∀ pid, w'.replyInfo pid = w.replyInfo pid ∨ (pid = c.nspid ∧ c.pc.critical = true ∧
    (w'.replyInfo pid ≠ none → c'.pc.described = true))

/-- A step of the program that changes none of the files keeps this where the flags allow it. -/
def Pc.moves (p q : Pc) : Bool :=
  (q.critical == p.critical) && (!q.answerable || p.answerable) && (!q.early || p.early)

theorem Client.Holds.move {i : ι} {c c' : Client} {w w' : Shared ι} (h : c.Holds i w)
    (hw : w' = { w with sem := w'.sem })
    (hc : c' =
      { c with pc := c'.pc, s := c'.s, notifCount := c'.notifCount, connected := c'.connected })
    (hmoves : c.pc.moves c'.pc = true) (hbare : c'.pc.bare = true → c.held = []) :
    c'.Holds i w' ∧ c.Leaves i c' w w' := by
  obtain ⟨hlock, hnotif, hnodup, hreply, hearly, -, hle⟩ := h
  simp only [Pc.moves, Bool.and_eq_true, beq_iff_eq, Bool.or_eq_true, Bool.not_eq_true'] at hmoves
  obtain ⟨⟨hcrit, hans⟩, hear⟩ := hmoves
  generalize c'.pc = p at *
  rw [hc, hw]
  refine ⟨⟨?_, hnotif, hnodup, fun ha => hreply ?_, fun he => hearly ?_, hbare, hle⟩,
    ⟨rfl, fun _ _ => Iff.rfl, fun _ _ _ => Iff.rfl, fun _ => Or.inl rfl⟩⟩
  · rw [hlock, hcrit]
  · exact hans.resolve_left (by simpa using ha)
  · exact hear.resolve_left (by simpa using he)

/-! ### The calls that change a file -/

theorem Client.held_append {c : Client} (hi : c.i = 0) (lock : Option GoString) :
    Client.held { c with notifLock := c.notifLock ++ [lock] } = c.held ++ lock.toList := by
  unfold Client.held
  simp only [hi, List.drop_zero, List.filterMap_append]
  cases lock <;> rfl

theorem Client.held_next {c : Client} {lock : Option GoString}
    (h : c.notifLock[c.i]? = some lock) :
    c.held = lock.toList ++ Client.held { c with i := c.i + 1 } := by
  obtain ⟨hlt, hget⟩ := List.getElem?_eq_some_iff.mp h
  unfold Client.held
  rw [List.drop_eq_getElem_cons hlt, hget]
  cases lock <;> rfl

theorem Client.Holds.acquired {i : ι} {c : Client} {w : Shared ι} (h : c.Holds i w)
    (hpc : c.pc = .acquire) (hfree : w.attachLock = none) :
    Client.Holds i { c with pc := .createSocket } { w with attachLock := some i } ∧
      c.Leaves i { c with pc := .createSocket } w { w with attachLock := some i } := by
  refine ⟨⟨iff_of_true rfl rfl, h.notif, h.nodup, nofun, fun _ => h.early (by rw [hpc]; rfl),
    fun _ => h.bare (by rw [hpc]; rfl), h.le⟩,
    ⟨rfl, fun j hj => ?_, fun _ _ _ => Iff.rfl, fun _ => Or.inl rfl⟩⟩
  rw [hfree]
  exact iff_of_false (fun heq => hj (Option.some.inj heq).symm) nofun

/-- Only the reply file of its own JVM is written or removed. -/
theorem Client.Holds.replied {i : ι} {c : Client} {w : Shared ι} (h : c.Holds i w) {p : Pc}
    {reply : GoString} {info : Option GoString} (hcrit : c.pc.critical = true)
    (hmoves : p.critical = true) (hans : p.answerable = true → info = some reply)
    (hearly : p.early = true → c.pc.early = true) (hbare : p.bare = true → c.pc.bare = true)
    (hinfo : info ≠ none → p.described = true) :
    Client.Holds i { c with pc := p, reply := reply }
        { w with replyInfo := Function.update w.replyInfo c.nspid info } ∧
      c.Leaves i { c with pc := p, reply := reply } w
        { w with replyInfo := Function.update w.replyInfo c.nspid info } := by
  refine ⟨⟨?_, h.notif, h.nodup, fun ha => ?_, fun he => h.early (hearly he),
    fun hb => h.bare (hbare hb), h.le⟩,
    ⟨rfl, fun _ _ => Iff.rfl, fun _ _ _ => Iff.rfl, fun pid => ?_⟩⟩
  · exact h.lock.trans (iff_of_true hcrit hmoves)
  · rw [hans ha]
    exact Function.update_self _ _ _
  · by_cases hpid : pid = c.nspid
    · refine Or.inr ⟨hpid, hcrit, fun hne => hinfo fun hnone => hne ?_⟩
      rw [hpid, hnone]
      exact Function.update_self _ _ _
    · exact Or.inl (Function.update_of_ne hpid _ _)

theorem Client.Holds.locked {i : ι} {c : Client} {w : Shared ι} (h : c.Holds i w)
    (hpc : c.pc = .readDir) (hlt : c.notifLock.length < maxNotifFiles) {name : GoString}
    (hfree : w.notif name = none) :
    Client.Holds i { c with notifLock := c.notifLock ++ [some name] }
        { w with notif := Function.update w.notif name (some (.client i)) } ∧
      c.Leaves i { c with notifLock := c.notifLock ++ [some name] } w
        { w with notif := Function.update w.notif name (some (.client i)) } := by
  have hi : c.i = 0 := h.early (by rw [hpc]; rfl)
  have hheld := Client.held_append hi (some name)
  have hnew : name ∉ c.held := by
    intro hmem
    rw [(h.notif name).mpr hmem] at hfree
    cases hfree
  refine ⟨⟨h.lock, fun n => ?_, ?_, h.reply, h.early, fun hb => ?_, ?_⟩,
    ⟨rfl, fun _ _ => Iff.rfl, fun n j hj => ?_, fun _ => Or.inl rfl⟩⟩
  · rw [hheld, List.mem_append]
    by_cases hn : n = name
    · subst hn
      exact iff_of_true (Function.update_self _ _ _) (Or.inr List.mem_cons_self)
    · simp only [Function.update_of_ne hn, h.notif n, Option.toList_some, List.mem_singleton, hn,
        or_false]
  · rw [hheld]
    exact List.nodup_append.mpr ⟨h.nodup, List.nodup_singleton name, fun a ha b hb heq =>
      hnew (List.mem_singleton.mp hb ▸ heq ▸ ha)⟩
  · simp only [hpc] at hb
    cases hb
  · simp only [List.length_append, List.length_singleton]
    omega
  · by_cases hn : n = name
    · subst hn
      simp only [Function.update_self, hfree]
      exact iff_of_false (fun heq => hj (Owner.client.inj (Option.some.inj heq)).symm) nofun
    · simp only [Function.update_of_ne hn]

theorem Client.Holds.unlocked {i : ι} {c : Client} {w : Shared ι} (h : c.Holds i w)
    (hpc : c.pc = .unlock) {name : GoString} (hnext : c.notifLock[c.i]? = some (some name)) :
    Client.Holds i { c with i := c.i + 1 }
        { w with notif := Function.update w.notif name none } ∧
      c.Leaves i { c with i := c.i + 1 } w
        { w with notif := Function.update w.notif name none } := by
  have hheld := Client.held_next hnext
  simp only [Option.toList_some, List.singleton_append] at hheld
  have hnodup := h.nodup
  rw [hheld, List.nodup_cons] at hnodup
  have hmine : w.notif name = some (.client i) :=
    (h.notif name).mpr (hheld ▸ List.mem_cons_self)
  refine ⟨⟨h.lock, fun n => ?_, hnodup.2, h.reply, fun he => ?_, fun hb => ?_, h.le⟩,
    ⟨rfl, fun _ _ => Iff.rfl, fun n j hj => ?_, fun _ => Or.inl rfl⟩⟩
  · by_cases hn : n = name
    · subst hn
      simp only [Function.update_self]
      exact iff_of_false nofun hnodup.1
    · simp only [Function.update_of_ne hn, h.notif n]
      rw [hheld, List.mem_cons]
      exact ⟨fun hmem => hmem.resolve_left hn, Or.inr⟩
  · simp only [hpc] at he
    cases he
  · simp only [hpc] at hb
    cases hb
  · by_cases hn : n = name
    · subst hn
      simp only [Function.update_self, hmine]
      exact iff_of_false nofun fun heq => hj (Owner.client.inj (Option.some.inj heq)).symm
    · simp only [Function.update_of_ne hn]

/-- An entry of the loop that holds no lock is passed over. -/
theorem Client.Holds.passed {i : ι} {c : Client} {w : Shared ι} (h : c.Holds i w)
    (hpc : c.pc = .unlock) (hnext : c.notifLock[c.i]? = some none) :
    Client.Holds i { c with i := c.i + 1 } w ∧ c.Leaves i { c with i := c.i + 1 } w w := by
  have hheld := Client.held_next hnext
  simp only [Option.toList_none, List.nil_append] at hheld
  refine ⟨⟨h.lock, fun n => ?_, ?_, h.reply, fun he => ?_, fun hb => ?_, h.le⟩,
    ⟨rfl, fun _ _ => Iff.rfl, fun _ _ _ => Iff.rfl, fun _ => Or.inl rfl⟩⟩
  · rw [← hheld]
    exact h.notif n
  · rw [← hheld]
    exact h.nodup
  · simp only [hpc] at he
    cases he
  · simp only [hpc] at hb
    cases hb

theorem Client.Holds.failed {i : ι} {c : Client} {w : Shared ι} (h : c.Holds i w)
    (hpc : c.pc = .readDir) (hlt : c.notifLock.length < maxNotifFiles) :
    Client.Holds i { c with notifLock := c.notifLock ++ [none] } w ∧
      c.Leaves i { c with notifLock := c.notifLock ++ [none] } w w := by
  have hi : c.i = 0 := h.early (by rw [hpc]; rfl)
  have hheld := Client.held_append hi none
  simp only [Option.toList_none, List.append_nil] at hheld
  refine ⟨⟨h.lock, fun n => ?_, ?_, h.reply, h.early, fun hb => ?_, ?_⟩,
    ⟨rfl, fun _ _ => Iff.rfl, fun _ _ _ => Iff.rfl, fun _ => Or.inl rfl⟩⟩
  · rw [hheld]
    exact h.notif n
  · rw [hheld]
    exact h.nodup
  · simp only [hpc] at hb
    cases hb
  · simp only [List.length_append, List.length_singleton]
    omega

theorem Client.Holds.released {i : ι} {c : Client} {w : Shared ι} (h : c.Holds i w)
    (hpc : c.pc = .release) :
    Client.Holds i { c with pc := .done } { w with attachLock := none } ∧
      c.Leaves i { c with pc := .done } w { w with attachLock := none } := by
  have hmine : w.attachLock = some i := h.lock.mpr (by rw [hpc]; rfl)
  refine ⟨⟨iff_of_false nofun nofun, h.notif, h.nodup, nofun, nofun,
    fun _ => h.bare (by rw [hpc]; rfl), h.le⟩,
    ⟨rfl, fun j hj => ?_, fun _ _ _ => Iff.rfl, fun _ => Or.inl rfl⟩⟩
  rw [hmine]
  exact iff_of_false nofun fun heq => hj (Option.some.inj heq).symm

/-- The locks of a client that is killed are free. -/
theorem Client.killed_holds [DecidableEq ι] {i : ι} {c : Client} {w w' : Shared ι}
    (hw : w' = { w with
      attachLock := if w.attachLock = some i then none else w.attachLock
      notif := fun name => if w.notif name = some (.client i) then none else w.notif name }) :
    Client.Holds i { c with pc := .killed, s := none, notifLock := [] } w' ∧
      c.Leaves i { c with pc := .killed, s := none, notifLock := [] } w w' := by
  have hheld : Client.held { c with pc := .killed, s := none, notifLock := [] } = [] := by
    simp only [Client.held, List.drop_nil, List.filterMap_nil]
  subst hw
  refine ⟨⟨?_, fun n => ?_, ?_, nofun, nofun, fun _ => hheld, Nat.zero_le _⟩,
    ⟨rfl, fun j hj => ?_, fun n j hj => ?_, fun _ => Or.inl rfl⟩⟩
  · refine iff_of_false (fun heq => ?_) nofun
    simp only at heq
    split at heq
    · cases heq
    · rename_i hne
      exact hne heq
  · rw [hheld]
    refine iff_of_false (fun heq => ?_) List.not_mem_nil
    simp only at heq
    split at heq
    · cases heq
    · rename_i hne
      exact hne heq
  · rw [hheld]
    exact List.nodup_nil
  · simp only
    split
    · rename_i heq
      rw [heq]
      exact iff_of_false nofun fun hij => hj (Option.some.inj hij).symm
    · exact Iff.rfl
  · simp only
    split
    · rename_i heq
      rw [heq]
      exact iff_of_false nofun fun hij => hj (Owner.client.inj (Option.some.inj hij)).symm
    · exact Iff.rfl

theorem Client.step_holds [DecidableEq ι] {i : ι} {c c' : Client} {w w' : Shared ι}
    {call : Call} (h : c.Holds i w) (hstep : c.step i w call = some (c', w')) :
    c'.Holds i w' ∧ c.Leaves i c' w w' := by
  unfold Client.step at hstep
  split at hstep
  · rename_i hpc
    split at hstep
    · split at hstep
      · rename_i hfree
        obtain ⟨rfl, rfl⟩ := Prod.mk.inj (Option.some.inj hstep)
        exact h.acquired hpc hfree
      · cases hstep
    · obtain ⟨rfl, rfl⟩ := Prod.mk.inj (Option.some.inj hstep)
      exact h.move rfl rfl (by rw [hpc]; rfl) fun _ => h.bare (by rw [hpc]; rfl)
  · rename_i hpc
    split at hstep
    · obtain ⟨rfl, rfl⟩ := Prod.mk.inj (Option.some.inj hstep)
      exact h.move rfl rfl (by rw [hpc]; rfl) fun _ => h.bare (by rw [hpc]; rfl)
    · obtain ⟨rfl, rfl⟩ := Prod.mk.inj (Option.some.inj hstep)
      exact h.move rfl rfl (by rw [hpc]; rfl) fun _ => h.bare (by rw [hpc]; rfl)
  · rename_i hpc
    split at hstep
    · obtain ⟨rfl, rfl⟩ := Prod.mk.inj (Option.some.inj hstep)
      exact h.replied (by rw [hpc]; rfl) rfl nofun (fun _ => by rw [hpc]; rfl)
        (fun _ => by rw [hpc]; rfl) fun _ => rfl
    · obtain ⟨rfl, rfl⟩ := Prod.mk.inj (Option.some.inj hstep)
      exact h.move rfl rfl (by rw [hpc]; rfl) nofun
  · rename_i hpc
    obtain ⟨rfl, rfl⟩ := Prod.mk.inj (Option.some.inj hstep)
    exact h.replied (by rw [hpc]; rfl) rfl (fun _ => rfl) (fun _ => by rw [hpc]; rfl) nofun
      fun _ => rfl
  · rename_i hpc
    split at hstep
    · rename_i hlt
      split at hstep
      · split at hstep
        · split at hstep
          · rename_i hfree
            obtain ⟨rfl, rfl⟩ := Prod.mk.inj (Option.some.inj hstep)
            exact h.locked hpc hlt hfree
          · cases hstep
        · obtain ⟨rfl, rfl⟩ := Prod.mk.inj (Option.some.inj hstep)
          exact h.failed hpc hlt
      · obtain ⟨rfl, rfl⟩ := Prod.mk.inj (Option.some.inj hstep)
        exact h.move rfl rfl (by rw [hpc]; rfl) h.bare
    · cases hstep
  · rename_i hpc
    obtain ⟨rfl, rfl⟩ := Prod.mk.inj (Option.some.inj hstep)
    exact h.move rfl rfl (by rw [hpc]; rfl) nofun
  · rename_i hpc
    split at hstep
    · obtain ⟨rfl, rfl⟩ := Prod.mk.inj (Option.some.inj hstep)
      exact h.move rfl rfl (by rw [hpc]; rfl) nofun
    · obtain ⟨rfl, rfl⟩ := Prod.mk.inj (Option.some.inj hstep)
      exact h.move rfl rfl (by rw [hpc]; rfl) nofun
  · rename_i hpc
    split at hstep
    · obtain ⟨rfl, rfl⟩ := Prod.mk.inj (Option.some.inj hstep)
      refine h.move ?_ rfl (by rw [hpc]; rfl) h.bare
      split <;> rfl
    · cases hstep
  · rename_i hpc
    split at hstep
    · obtain ⟨rfl, rfl⟩ := Prod.mk.inj (Option.some.inj hstep)
      exact h.move rfl rfl (by rw [hpc]; rfl) nofun
    · cases hstep
  · rename_i hpc
    obtain ⟨rfl, rfl⟩ := Prod.mk.inj (Option.some.inj hstep)
    exact h.move rfl rfl (by rw [hpc]; rfl) nofun
  · rename_i ok hpc
    obtain ⟨rfl, rfl⟩ := Prod.mk.inj (Option.some.inj hstep)
    cases ok with
    | true =>
      exact h.replied (by rw [hpc]; rfl) rfl nofun (fun _ => by rw [hpc]; rfl) nofun
        fun hne => absurd rfl hne
    | false => exact h.move rfl rfl (by rw [hpc]; rfl) nofun
  · rename_i hpc
    obtain ⟨rfl, rfl⟩ := Prod.mk.inj (Option.some.inj hstep)
    exact h.move rfl rfl (by rw [hpc]; rfl) nofun
  · rename_i hpc
    split at hstep
    · rename_i hnext
      obtain ⟨rfl, rfl⟩ := Prod.mk.inj (Option.some.inj hstep)
      exact h.unlocked hpc hnext
    · rename_i hnext
      obtain ⟨rfl, rfl⟩ := Prod.mk.inj (Option.some.inj hstep)
      exact h.passed hpc hnext
    · cases hstep
  · rename_i hpc
    split at hstep
    · rename_i hall
      have hheld : c.held = [] := by
        rw [Client.held, List.drop_eq_nil_of_le hall, List.filterMap_nil]
      obtain ⟨rfl, rfl⟩ := Prod.mk.inj (Option.some.inj hstep)
      refine h.move rfl rfl ?_ fun _ => hheld
      rw [hpc]
      split <;> rfl
    · cases hstep
  · rename_i hpc
    have hheld := h.bare (by rw [hpc]; rfl)
    split at hstep
    · obtain ⟨rfl, rfl⟩ := Prod.mk.inj (Option.some.inj hstep)
      exact h.move rfl rfl (by rw [hpc]; rfl) fun _ => hheld
    · obtain ⟨rfl, rfl⟩ := Prod.mk.inj (Option.some.inj hstep)
      exact h.move rfl rfl (by rw [hpc]; rfl) fun _ => hheld
  · rename_i hpc
    split at hstep
    · obtain ⟨rfl, rfl⟩ := Prod.mk.inj (Option.some.inj hstep)
      exact h.move rfl rfl (by rw [hpc]; rfl) h.bare
    · cases hstep
  · rename_i hpc
    split at hstep
    · obtain ⟨rfl, rfl⟩ := Prod.mk.inj (Option.some.inj hstep)
      exact h.move rfl rfl (by rw [hpc]; rfl) fun _ => h.bare (by rw [hpc]; rfl)
    · cases hstep
  · rename_i hpc
    obtain ⟨rfl, rfl⟩ := Prod.mk.inj (Option.some.inj hstep)
    exact h.released hpc
  · cases hstep
  · cases hstep
  · obtain ⟨rfl, rfl⟩ := Prod.mk.inj (Option.some.inj hstep)
    exact Client.killed_holds rfl
  · cases hstep

/-- A client that goes on from where its reply file may be there has removed it, unless the
removal failed or the client was killed. -/
theorem Client.step_described [DecidableEq ι] {i : ι} {c c' : Client} {w w' : Shared ι}
    {call : Call} (hdesc : c.pc.described = true) (hstep : c.step i w call = some (c', w'))
    (hne : w'.replyInfo c.nspid ≠ none) :
    c'.pc.described = true ∨ c'.pc = .killed ∨ call = .unlink false := by
  unfold Client.step at hstep
  split at hstep
  case h_11 ok hpc =>
    obtain ⟨rfl, rfl⟩ := Prod.mk.inj (Option.some.inj hstep)
    cases ok with
    | true => exact absurd (Function.update_self _ _ _) hne
    | false => exact Or.inr (Or.inr rfl)
  case h_21 =>
    obtain ⟨rfl, rfl⟩ := Prod.mk.inj (Option.some.inj hstep)
    exact Or.inr (Or.inl rfl)
  all_goals
    first
      | rename_i hpc
        exact absurd hdesc (by rw [hpc]; decide)
      | left
        rename_i hpc
        repeat' split at hstep
        all_goals
          first
            | obtain ⟨rfl, -⟩ := Prod.mk.inj (Option.some.inj hstep)
              first
                | rfl
                | exact (congrArg Pc.described hpc).trans rfl
            | cases hstep

/-! ## All clients and JVMs -/

/-- The directory before any attach; JVMs may hold notification locks. -/
structure System.Start (sys : System ι) : Prop where
  pc : ∀ i, (sys.client i).pc = .acquire
  notifLock : ∀ i, (sys.client i).notifLock = []
  i : ∀ i, (sys.client i).i = 0
  attachLock : sys.shared.attachLock = none
  notif : ∀ name i, sys.shared.notif name ≠ some (.client i)
  replyInfo : ∀ pid, sys.shared.replyInfo pid = none

/-- `stuck` are the clients that cannot remove a reply file. -/
structure System.Inv (stuck : ι → Prop) (sys : System ι) : Prop where
  holds : ∀ i, (sys.client i).Holds i sys.shared
  reply : ∀ pid, sys.shared.replyInfo pid ≠ none → ∃ i, (sys.client i).nspid = pid ∧
    ((sys.client i).pc.described = true ∨ (sys.client i).pc = .killed ∨ stuck i)

variable {stuck : ι → Prop}

theorem System.Start.inv {sys : System ι} (h : sys.Start) : sys.Inv stuck where
  holds i := by
    have hheld : (sys.client i).held = [] := by
      rw [Client.held, h.notifLock, List.drop_nil, List.filterMap_nil]
    refine ⟨?_, fun name => ?_, ?_, fun ha => ?_, fun _ => h.i i, fun _ => hheld, ?_⟩
    · rw [h.attachLock, h.pc]
      exact iff_of_false nofun nofun
    · rw [hheld]
      exact iff_of_false (h.notif name i) List.not_mem_nil
    · rw [hheld]
      exact List.nodup_nil
    · rw [h.pc] at ha
      cases ha
    · rw [h.notifLock]
      exact Nat.zero_le _
  reply pid hne := absurd (h.replyInfo pid) hne

/-- What one client does leaves what the others hold. -/
theorem Client.Leaves.holds {i j : ι} (hj : j ≠ i) {c c' d : Client} {w w' : Shared ι}
    (h : c.Leaves i c' w w') (hc : c.Holds i w) (hd : d.Holds j w) : d.Holds j w' where
  lock := (h.lock j hj).trans hd.lock
  notif name := (h.notif name j hj).trans (hd.notif name)
  nodup := hd.nodup
  reply ha := by
    rcases h.reply d.nspid with hsame | ⟨-, hcrit, -⟩
    · rw [hsame]
      exact hd.reply ha
    · have hcritical : d.pc.critical = true := by
        cases hpc : d.pc <;> rw [hpc] at ha <;> first | rfl | cases ha
      have hi := hc.lock.mpr hcrit
      rw [hd.lock.mpr hcritical] at hi
      exact absurd (Option.some.inj hi) hj
  early := hd.early
  bare := hd.bare
  le := hd.le

theorem Client.Holds.jvm {i : ι} {c : Client} {w : Shared ι} (h : c.Holds i w)
    {notif : GoString → Option (Owner ι)}
    (hnotif : ∀ name, notif name = some (.client i) ↔ w.notif name = some (.client i))
    (sem : ℕ) : c.Holds i { w with notif := notif, sem := sem } :=
  ⟨h.lock, fun name => (hnotif name).trans (h.notif name), h.nodup, h.reply, h.early, h.bare,
    h.le⟩

theorem update_notif_iff {notif : GoString → Option (Owner ι)} {name : GoString}
    {owner : Option (Owner ι)} {i : ι} (hold : notif name ≠ some (.client i))
    (hnew : owner ≠ some (.client i)) (n : GoString) :
    Function.update notif name owner n = some (.client i) ↔ notif n = some (.client i) := by
  by_cases hn : n = name
  · subst hn
    rw [Function.update_self]
    exact iff_of_false hnew hold
  · rw [Function.update_of_ne hn]

/-- What is in the shared directory behind the run `as`. -/
structure System.Exclusive (as : List (Action ι)) (sys : System ι) : Prop where
  /-- one client is between taking the attach lock and releasing it -/
  one : ∀ i j, (sys.client i).pc.critical = true → (sys.client j).pc.critical = true → i = j
  /-- a client that waits has its own reply in the file of its JVM -/
  reply : ∀ i, (sys.client i).pc.answerable = true →
    sys.shared.replyInfo (sys.client i).nspid = some (sys.client i).reply
  /-- any reply file is that of a client that is yet to remove it, that was killed, or that
  could not remove it -/
  removed : ∀ pid, sys.shared.replyInfo pid ≠ none → ∃ i, (sys.client i).nspid = pid ∧
    ((sys.client i).pc.described = true ∨ (sys.client i).pc = .killed ∨
      .client i (.unlink false) ∈ as)
  /-- nobody waits for a notification lock of a client, so no two clients wait for each other -/
  notif : ∀ i j name, sys.shared.notif name = some (.client i) →
    (sys.client j).pc = .readDir → j = i
  /-- a client that is done, or that was killed, holds no lock -/
  free : ∀ i, (sys.client i).pc = .done ∨ (sys.client i).pc = .killed →
    sys.shared.attachLock ≠ some i ∧ ∀ name, sys.shared.notif name ≠ some (.client i)

theorem Pc.critical_of_not_bare {p : Pc} (h : p.bare = false) : p.critical = true := by
  cases p <;> first | rfl | cases h

theorem System.Inv.exclusive {sys : System ι} {as : List (Action ι)}
    (h : sys.Inv fun i => .client i (.unlink false) ∈ as) : sys.Exclusive as where
  one i j hi hj := by
    have hlock := (h.holds i).lock.mpr hi
    rw [(h.holds j).lock.mpr hj] at hlock
    exact (Option.some.inj hlock).symm
  reply i := (h.holds i).reply
  removed := h.reply
  notif i j name hname hj := by
    have hmem := ((h.holds i).notif name).mp hname
    have hbare : (sys.client i).pc.bare = false := by
      rw [Bool.eq_false_iff]
      intro hbare
      rw [(h.holds i).bare hbare] at hmem
      exact List.not_mem_nil hmem
    have hlock := (h.holds i).lock.mpr (Pc.critical_of_not_bare hbare)
    rw [(h.holds j).lock.mpr (by rw [hj]; rfl)] at hlock
    exact Option.some.inj hlock
  free i hpc := by
    have hcrit : (sys.client i).pc.critical = false := by
      rcases hpc with hpc | hpc <;> rw [hpc] <;> rfl
    have hbare : (sys.client i).pc.bare = true := by
      rcases hpc with hpc | hpc <;> rw [hpc] <;> rfl
    refine ⟨fun hlock => ?_, fun name hname => ?_⟩
    · rw [(h.holds i).lock, hcrit] at hlock
      cases hlock
    · have hmem := ((h.holds i).notif name).mp hname
      rw [(h.holds i).bare hbare] at hmem
      exact List.not_mem_nil hmem

section

variable [DecidableEq ι]

/-- Each client that stays where it is keeps its reason, and the one that steps has one if the
file is its own. -/
theorem System.Inv.client_reply {sys : System ι} (h : sys.Inv stuck) {i : ι} {call : Call}
    {c' : Client} {w' : Shared ι} (hc : (sys.client i).step i sys.shared call = some (c', w'))
    (hleaves : (sys.client i).Leaves i c' sys.shared w') (hstuck : call = .unlink false → stuck i)
    {pid : Int} (hne : w'.replyInfo pid ≠ none) :
    ∃ k, (Function.update sys.client i c' k).nspid = pid ∧
      ((Function.update sys.client i c' k).pc.described = true ∨
        (Function.update sys.client i c' k).pc = .killed ∨ stuck k) := by
  rcases hleaves.reply pid with hsame | ⟨rfl, -, hdescribed⟩
  · have hold : sys.shared.replyInfo pid ≠ none := by
      rw [← hsame]
      exact hne
    obtain ⟨k, rfl, hwhy⟩ := h.reply pid hold
    by_cases hki : k = i
    · subst hki
      refine ⟨k, ?_, ?_⟩
      · rw [Function.update_self, hleaves.nspid]
      · rw [Function.update_self]
        rcases hwhy with hdesc | hkilled | hfailed
        · rcases Client.step_described hdesc hc hne with hdesc' | hkilled | hunlink
          · exact Or.inl hdesc'
          · exact Or.inr (Or.inl hkilled)
          · exact Or.inr (Or.inr (hstuck hunlink))
        · simp only [Client.step, hkilled] at hc
          cases hc
        · exact Or.inr (Or.inr hfailed)
    · refine ⟨k, ?_, ?_⟩
      · rw [Function.update_of_ne hki]
      · rw [Function.update_of_ne hki]
        exact hwhy
  · refine ⟨i, ?_, Or.inl ?_⟩
    · rw [Function.update_self, hleaves.nspid]
    · rw [Function.update_self]
      exact hdescribed hne

theorem System.Inv.next {sys t : System ι} {a : Action ι} (h : sys.Inv stuck)
    (hstep : sys.step a = some t) (hstuck : ∀ i, a = .client i (.unlink false) → stuck i) :
    t.Inv stuck := by
  cases a with
  | client i call =>
    obtain ⟨⟨c', w'⟩, hc, rfl⟩ := Option.map_eq_some_iff.mp hstep
    obtain ⟨hholds, hleaves⟩ := Client.step_holds (h.holds i) hc
    refine ⟨fun j => ?_, fun pid hne => ?_⟩
    · by_cases hj : j = i
      · subst hj
        simp only [Function.update_self]
        exact hholds
      · simp only [Function.update_of_ne hj]
        exact hleaves.holds hj (h.holds i) (h.holds j)
    · apply h.client_reply hc hleaves _ hne
      rintro rfl
      exact hstuck i rfl
  | jvmWaits =>
    simp only [System.step] at hstep
    split at hstep
    · obtain rfl := Option.some.inj hstep
      exact ⟨fun i => (h.holds i).jvm (fun _ => Iff.rfl) _, h.reply⟩
    · cases hstep
  | jvmLocks name =>
    simp only [System.step] at hstep
    split at hstep
    · rename_i hfree
      obtain rfl := Option.some.inj hstep
      refine ⟨fun i => ?_, h.reply⟩
      have hold : sys.shared.notif name ≠ some (.client i) := by
        rw [hfree]
        exact nofun
      have hnew : (some .jvm : Option (Owner ι)) ≠ some (.client i) := nofun
      exact (h.holds i).jvm (update_notif_iff hold hnew) _
    · cases hstep
  | jvmUnlocks name =>
    simp only [System.step] at hstep
    split at hstep
    · rename_i hmine
      obtain rfl := Option.some.inj hstep
      refine ⟨fun i => ?_, h.reply⟩
      have hold : sys.shared.notif name ≠ some (.client i) := by
        rw [hmine]
        exact nofun
      have hnew : (none : Option (Owner ι)) ≠ some (.client i) := nofun
      exact (h.holds i).jvm (update_notif_iff hold hnew) _
    · cases hstep

/-- However clients and JVMs run, whichever calls fail, and whoever is killed. -/
theorem attach_exclusive {sys t : System ι} (hstart : sys.Start) {as : List (Action ι)}
    (hrun : Transition.run System.step sys as = some t) : t.Exclusive as := by
  have hfailed : Transition.Along System.step
      (fun _ a _ => ∀ i, a = .client i (.unlink false) → .client i (.unlink false) ∈ as) sys as :=
    Transition.along_of_forall_mem System.step (fun _ ha _ heq => heq ▸ ha) sys
  apply System.Inv.exclusive
  exact Transition.run_invariant_along (fun _ _ _ hI hstep hfailed => hI.next hstep hfailed)
    hstart.inv hfailed hrun

end

/-- Clients that have not begun, in an empty directory. -/
def untouched : System ℕ where
  client := fun i => ⟨i, .acquire, none, [], [], 0, 0, false⟩
  shared := ⟨none, fun _ => none, fun _ => none, 0⟩

theorem start_untouched : untouched.Start :=
  ⟨fun _ => rfl, fun _ => rfl, fun _ => rfl, rfl, fun _ _ => nofun, fun _ => rfl⟩

/-- A client cannot remove its reply file, another one is killed while it waits for its JVM, and
a third begins. -/
def killedAttach : List (Action ℕ) :=
  [.client 6 (.acquireLock true), .client 6 (.createSocket (some 40001)),
    .client 6 (.openReply true), .client 6 (.writeReply 5 99), .client 6 .endOfDir,
    .client 6 (.semget false), .client 6 (.unlink false), .client 6 .close, .client 6 .unlocked,
    .client 6 .release, .client 7 (.acquireLock true), .client 7 (.createSocket (some 40000)),
    .client 7 (.openReply true), .client 7 (.writeReply 5 99),
    .client 7 (.entry (str "7") true true), .client 7 .endOfDir, .client 7 (.semget true),
    .client 7 (.semop true), .client 7 .notified, .client 7 .kill,
    .client 8 (.acquireLock true), .jvmWaits]

theorem attach_exclusive_killed :
    ((Transition.run System.step untouched killedAttach).get rfl).Exclusive killedAttach :=
  attach_exclusive start_untouched (Option.some_get _).symm

end YcAgent.Attach.OpenJ9
