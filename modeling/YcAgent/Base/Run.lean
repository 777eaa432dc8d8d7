import Mathlib.Logic.Basic
import Mathlib.Data.Option.Basic

/-!
# Runs of a labelled transition function

A system is a partial function from a state and an action to the next state; an
action that is not enabled has no next state. A run is a list of actions that
are enabled one after another. The rules below lift a fact about one step to
every state of a run.
-/
namespace Transition

variable {σ α : Type*} (step : σ → α → Option σ)

def run (s : σ) : List α → Option σ
  | [] => some s
  | a :: as => (step s a).bind fun t => run t as

/-- `P` holds of every step of the run from `s`. -/
def Along (P : σ → α → σ → Prop) (s : σ) : List α → Prop
  | [] => True
  | a :: as => ∀ t, step s a = some t → P s a t ∧ Along P t as

/-- `Q` holds of every state of the run from `s`, the first and the last included. -/
def Throughout (Q : σ → Prop) (s : σ) : List α → Prop
  | [] => Q s
  | a :: as => Q s ∧ ∀ t, step s a = some t → Throughout Q t as

variable {step}

instance decidableAlong {P : σ → α → σ → Prop} [∀ s a t, Decidable (P s a t)] :
    (s : σ) → (as : List α) → Decidable (Along step P s as)
  | _, [] => .isTrue trivial
  | s, a :: as =>
    match h : step s a with
    | none => .isTrue fun t ht => by rw [h] at ht; cases ht
    | some t =>
      have := decidableAlong (P := P) t as
      decidable_of_iff (P s a t ∧ Along step P t as)
        ⟨fun hP u hu => by rw [h] at hu; cases hu; exact hP, fun hP => hP t h⟩

theorem run_cons_some {s u : σ} {a : α} {as : List α} (h : run step s (a :: as) = some u) :
    ∃ t, step s a = some t ∧ run step t as = some u := by
  simpa only [run, Option.bind_eq_some_iff] using h

theorem run_cons {s t : σ} {a : α} (h : step s a = some t) (as : List α) :
    run step s (a :: as) = run step t as := by
  rw [run, h, Option.bind_some]

theorem run_append (s : σ) (as bs : List α) :
    run step s (as ++ bs) = (run step s as).bind fun t => run step t bs := by
  induction as generalizing s with
  | nil => rfl
  | cons a as ih =>
    simp only [List.cons_append, run, Option.bind_assoc]
    congr 1
    funext t
    exact ih t

/-- The invariant rule, for steps with a side condition that holds along the run. -/
theorem run_invariant_along {I : σ → Prop} {P : σ → α → σ → Prop}
    (hstep : ∀ s a t, I s → step s a = some t → P s a t → I t)
    {s u : σ} {as : List α} (hs : I s) (hP : Along step P s as)
    (h : run step s as = some u) : I u := by
  induction as generalizing s with
  | nil => exact Option.some.inj h ▸ hs
  | cons a as ih =>
    obtain ⟨t, ht, hu⟩ := run_cons_some h
    obtain ⟨hp, hP⟩ := hP t ht
    exact ih (hstep s a t hs ht hp) hP hu

/-- Where each step lowers a measure, a run is no longer than it is high at the start. -/
theorem length_add_le_of_decreasing {I : σ → Prop} {m : σ → Nat}
    (hstep : ∀ s a t, I s → step s a = some t → I t ∧ m t < m s) {s u : σ} {as : List α}
    (hs : I s) (h : run step s as = some u) : as.length + m u ≤ m s := by
  induction as generalizing s with
  | nil =>
    obtain rfl : s = u := Option.some.inj h
    exact Nat.le_of_eq (Nat.zero_add _)
  | cons a as ih =>
    obtain ⟨t, ht, hu⟩ := run_cons_some h
    obtain ⟨htI, hlt⟩ := hstep s a t hs ht
    have hrest := ih htI hu
    rw [List.length_cons]
    omega

/-- And every state has a run from it that ends in a state without a step. -/
theorem exists_run_to_end {I : σ → Prop} {m : σ → Nat}
    (hstep : ∀ s a t, I s → step s a = some t → I t ∧ m t < m s) {s : σ} (hs : I s) :
    ∃ as u, run step s as = some u ∧ ∀ a, step u a = none := by
  induction hm : m s using Nat.strongRecOn generalizing s with
  | ind k ih =>
    by_cases hend : ∀ a, step s a = none
    · exact ⟨[], s, rfl, hend⟩
    · obtain ⟨a, ha⟩ := Classical.not_forall.mp hend
      obtain ⟨t, ht⟩ := Option.ne_none_iff_exists'.mp ha
      obtain ⟨htI, hlt⟩ := hstep s a t hs ht
      obtain ⟨as, u, hrun, hu⟩ := ih (m t) (hm ▸ hlt) htI rfl
      exact ⟨a :: as, u, by rw [run_cons ht, hrun], hu⟩

theorem throughout_head {Q : σ → Prop} {s : σ} {as : List α} (h : Throughout step Q s as) :
    Q s := by
  cases as with
  | nil => exact h
  | cons a as => exact h.1

theorem throughout_last {Q : σ → Prop} {s u : σ} {as : List α} (h : Throughout step Q s as)
    (hrun : run step s as = some u) : Q u := by
  induction as generalizing s with
  | nil => exact Option.some.inj hrun ▸ h
  | cons a as ih =>
    obtain ⟨t, ht, hu⟩ := run_cons_some hrun
    exact ih (h.2 t ht) hu

/-- Where the steps of a run all meet `G`, the invariant that such steps keep holds
throughout it, and with it what follows from the invariant. -/
theorem throughout_of_along {I Q : σ → Prop} {G : σ → α → σ → Prop}
    (hI : ∀ s a t, I s → step s a = some t → G s a t → I t) (hQ : ∀ s, I s → Q s)
    {s : σ} {as : List α} (hs : I s) (hG : Along step G s as) : Throughout step Q s as := by
  induction as generalizing s with
  | nil => exact hQ s hs
  | cons a as ih =>
    refine ⟨hQ s hs, fun t ht => ?_⟩
    obtain ⟨hg, hrest⟩ := hG t ht
    exact ih (hI s a t hs ht hg) hrest

/-- Where a step that does not meet `G` leads out of `Q`, a run that stays in `Q` takes
only steps that meet it. -/
theorem along_of_throughout {J Q : σ → Prop} {P G : σ → α → σ → Prop}
    (hJ : ∀ s a t, J s → step s a = some t → P s a t → J t)
    (hQ : ∀ s a t, J s → step s a = some t → Q t → G s a t)
    {s : σ} {as : List α} (hs : J s) (hP : Along step P s as) (h : Throughout step Q s as) :
    Along step G s as := by
  induction as generalizing s with
  | nil => trivial
  | cons a as ih =>
    intro t ht
    obtain ⟨hp, hP⟩ := hP t ht
    have hrest := h.2 t ht
    exact ⟨hQ s a t hs ht (throughout_head hrest), ih (hJ s a t hs ht hp) hP hrest⟩

theorem Along.mono {P Q : σ → α → σ → Prop} (hPQ : ∀ s a t, P s a t → Q s a t)
    {s : σ} {as : List α} (h : Along step P s as) : Along step Q s as := by
  induction as generalizing s with
  | nil => trivial
  | cons a as ih =>
    intro t ht
    obtain ⟨hp, hrest⟩ := h t ht
    exact ⟨hPQ s a t hp, ih hrest⟩

theorem along_of_forall_mem (step : σ → α → Option σ) {P : α → Prop} {as : List α}
    (h : ∀ a ∈ as, P a) (s : σ) :
    Along step (fun _ a _ => P a) s as := by
  induction as generalizing s with
  | nil => trivial
  | cons a as ih =>
    intro t _
    exact ⟨h a List.mem_cons_self, ih (fun b hb => h b (List.mem_cons_of_mem a hb)) t⟩

theorem along_true (s : σ) (as : List α) : Along step (fun _ _ _ => True) s as :=
  along_of_forall_mem step (P := fun _ => True) (fun _ _ => trivial) s

/-- The invariant rule, for steps without a side condition. -/
theorem run_invariant {I : σ → Prop} (hstep : ∀ s a t, I s → step s a = some t → I t) {s u : σ}
    {as : List α} (hs : I s) (h : run step s as = some u) : I u :=
  run_invariant_along (fun s a t hI ht _ => hstep s a t hI ht) hs (along_true s as) h

/-- A run stays in `Q` if and only if its steps meet `G`, where steps that do keep an invariant
that implies `Q`, and a step that does not leads out of `Q`. -/
theorem throughout_iff_along {I J Q : σ → Prop} {G : σ → α → σ → Prop}
    (hI : ∀ s a t, I s → step s a = some t → G s a t → I t) (hIQ : ∀ s, I s → Q s)
    (hJ : ∀ s a t, J s → step s a = some t → J t)
    (hQ : ∀ s a t, J s → step s a = some t → Q t → G s a t)
    {s : σ} (hIs : I s) (hJs : J s) (as : List α) :
    Throughout step Q s as ↔ Along step G s as := by
  constructor
  · intro h
    exact along_of_throughout (fun s a t hs ht _ => hJ s a t hs ht) hQ hJs (along_true s as) h
  · intro h
    exact throughout_of_along hI hIQ hIs h

theorem along_and {P Q : σ → α → σ → Prop} {s : σ} {as : List α} (hP : Along step P s as)
    (hQ : Along step Q s as) : Along step (fun s a t => P s a t ∧ Q s a t) s as := by
  induction as generalizing s with
  | nil => trivial
  | cons a as ih =>
    intro t ht
    obtain ⟨hp, hP⟩ := hP t ht
    obtain ⟨hq, hQ⟩ := hQ t ht
    exact ⟨⟨hp, hq⟩, ih hP hQ⟩

theorem along_append {P : σ → α → σ → Prop} {s t : σ} {as bs : List α}
    (hrun : run step s as = some t) (has : Along step P s as) (hbs : Along step P t bs) :
    Along step P s (as ++ bs) := by
  induction as generalizing s with
  | nil => exact Option.some.inj hrun ▸ hbs
  | cons a as ih =>
    obtain ⟨u, hu, hrest⟩ := run_cons_some hrun
    intro v hv
    obtain rfl : u = v := Option.some.inj (hu.symm.trans hv)
    exact ⟨(has u hu).1, ih hrest (has u hu).2⟩

variable (step) in
/-- The states that runs of steps meeting `P` lead to. -/
def Reachable (P : σ → α → σ → Prop) (s t : σ) : Prop :=
  ∃ as, run step s as = some t ∧ Along step P s as

theorem Reachable.refl {P : σ → α → σ → Prop} (s : σ) : Reachable step P s s :=
  ⟨[], rfl, trivial⟩

theorem Reachable.next {P : σ → α → σ → Prop} {s t u : σ} {a : α} (h : Reachable step P s t)
    (hstep : step t a = some u) (hP : P t a u) : Reachable step P s u := by
  obtain ⟨as, hrun, has⟩ := h
  refine ⟨as ++ [a], ?_, ?_⟩
  · rw [run_append, hrun, Option.bind_some, run_cons hstep, run]
  · refine along_append hrun has fun v hv => ?_
    obtain rfl : u = v := Option.some.inj (hstep.symm.trans hv)
    exact ⟨hP, trivial⟩

/-- What every run keeps throughout is what holds in the states that runs lead to. -/
theorem forall_throughout_iff {P : σ → α → σ → Prop} {Q : σ → Prop} {s : σ} :
    (∀ as, Along step P s as → Throughout step Q s as) ↔ ∀ t, Reachable step P s t → Q t := by
  constructor
  · intro h t hex
    obtain ⟨as, hrun, has⟩ := hex
    exact throughout_last (h as has) hrun
  · intro h as has
    exact throughout_of_along (fun _ _ _ ht hu hP => Reachable.next ht hu hP) h
      (Reachable.refl s) has

variable (step) in
/-- The system with a variable beside it that is set by the steps and read by none. -/
def watched {η : Type*} (watch : σ → α → η → η) (x : σ × η) (a : α) : Option (σ × η) :=
  (step x.1 a).map fun t => (t, watch x.1 a x.2)

theorem watched_eq_some_iff {η : Type*} {watch : σ → α → η → η} {x y : σ × η} {a : α} :
    watched step watch x a = some y ↔ step x.1 a = some y.1 ∧ y.2 = watch x.1 a x.2 := by
  rw [watched, Option.map_eq_some_iff]
  constructor
  · rintro ⟨t, ht, rfl⟩
    exact ⟨ht, rfl⟩
  · intro h
    exact ⟨y.1, h.1, Prod.ext rfl h.2.symm⟩

/-- What such a variable holds makes no difference to the states of a run. -/
theorem throughout_watched_iff {η : Type*} {watch : σ → α → η → η} {Q : σ → Prop} {s : σ} {h : η}
    {as : List α} :
    Throughout (watched step watch) (fun x => Q x.1) (s, h) as ↔ Throughout step Q s as := by
  induction as generalizing s h with
  | nil => exact Iff.rfl
  | cons a as ih =>
    refine and_congr_right fun _ => ?_
    constructor
    · intro hall t ht
      exact ih.mp (hall (t, watch s a h) (watched_eq_some_iff.mpr ⟨ht, rfl⟩))
    · intro hall y hy
      exact ih.mpr (hall y.1 (watched_eq_some_iff.mp hy).1)

/-- The invariant rule for the states that can be reached. -/
theorem Reachable.invariant {P : σ → α → σ → Prop} {I : σ → Prop} {s u : σ}
    (hI : ∀ t a v, Reachable step P s t → I t → step t a = some v → P t a v → I v) (hs : I s)
    (h : Reachable step P s u) : I u := by
  obtain ⟨as, hrun, has⟩ := h
  have hstep : ∀ t a v, Reachable step P s t ∧ I t → step t a = some v → P t a v →
      Reachable step P s v ∧ I v :=
    fun t a v ht hv hP => ⟨ht.1.next hv hP, hI t a v ht.1 ht.2 hv hP⟩
  exact (run_invariant_along hstep ⟨Reachable.refl s, hs⟩ has hrun).2

end Transition
