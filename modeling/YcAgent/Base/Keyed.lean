import YcAgent.Base.FirstWins

/-!
# Steps that touch one entry of a map

A step is local when it reads and writes only the entry of its own key. Of a sequence
of local steps, those of one owner behave as if they were alone as long as no other
step has one of their keys.
-/
namespace Keyed

open Go

variable {K V C O : Type*} {step : GoMap K V → C → GoMap K V × O}

/-- The steps of a sequence, each with its output. -/
def trace (step : GoMap K V → C → GoMap K V × O) (m : GoMap K V) : List C → List (C × O)
  | [] => []
  | c :: cs => (c, (step m c).2) :: trace step (step m c).1 cs

/-- The map after a sequence of steps. -/
def final (step : GoMap K V → C → GoMap K V × O) (m : GoMap K V) (cs : List C) : GoMap K V :=
  cs.foldl (fun m c => (step m c).1) m

theorem trace_append (m : GoMap K V) (cs ds : List C) :
    trace step m (cs ++ ds) = trace step m cs ++ trace step (final step m cs) ds := by
  induction cs generalizing m with
  | nil => rfl
  | cons c cs ih =>
    rw [List.cons_append, trace, trace, ih]
    rfl

variable [DecidableEq K] {key : C → K}

structure Local (key : C → K) (step : GoMap K V → C → GoMap K V × O) : Prop where
  output : ∀ m m' c, m.lookup (key c) = m'.lookup (key c) → (step m c).2 = (step m' c).2
  entry : ∀ m m' c, m.lookup (key c) = m'.lookup (key c) →
    (step m c).1.lookup (key c) = (step m' c).1.lookup (key c)
  frame : ∀ m c k, k ≠ key c → (step m c).1.lookup k = m.lookup k

/-- Two maps that agree on the keys of the owner's steps. -/
def AgreeOn (key : C → K) (own : C → Bool) (cs : List C) (m m' : GoMap K V) : Prop :=
  ∀ c ∈ cs, own c = true → m.lookup (key c) = m'.lookup (key c)

theorem AgreeOn.step_own (hlocal : Local key step) {own : C → Bool} {c : C} {cs : List C}
    {m m' : GoMap K V} (h : AgreeOn key own (c :: cs) m m') (hc : own c = true) :
    AgreeOn key own cs (step m c).1 (step m' c).1 := by
  intro d hd hown
  by_cases hk : key d = key c
  · rw [hk]
    exact hlocal.entry m m' c (h c List.mem_cons_self hc)
  · rw [hlocal.frame m c _ hk, hlocal.frame m' c _ hk]
    exact h d (List.mem_cons_of_mem c hd) hown

theorem AgreeOn.step_other (hlocal : Local key step) {own : C → Bool} {c : C} {cs : List C}
    {m m' : GoMap K V} (h : AgreeOn key own (c :: cs) m m')
    (hc : ∀ d ∈ cs, own d = true → key d ≠ key c) : AgreeOn key own cs (step m c).1 m' := by
  intro d hd hown
  rw [hlocal.frame m c _ (hc d hd hown)]
  exact h d (List.mem_cons_of_mem c hd) hown

/-- The owner's part of a sequence is the sequence of the owner's steps alone. -/
theorem filter_trace (hlocal : Local key step) (own : C → Bool) {cs : List C} {m m' : GoMap K V}
    (hagree : AgreeOn key own cs m m')
    (hdisjoint : ∀ c ∈ cs, ∀ d ∈ cs, own c = true → own d = false → key c ≠ key d) :
    (trace step m cs).filter (fun e => own e.1) = trace step m' (cs.filter own) := by
  induction cs generalizing m m' with
  | nil => rfl
  | cons c cs ih =>
    have hrest : ∀ d ∈ cs, ∀ e ∈ cs, own d = true → own e = false → key d ≠ key e :=
      fun d hd e he => hdisjoint d (List.mem_cons_of_mem c hd) e (List.mem_cons_of_mem c he)
    cases hc : own c with
    | true =>
      have hout := hlocal.output m m' c (hagree c List.mem_cons_self hc)
      simp only [trace, List.filter_cons, hc, if_true]
      rw [hout, ih (hagree.step_own hlocal hc) hrest]
    | false =>
      simp only [trace, List.filter_cons, hc, Bool.false_eq_true, if_false]
      refine ih (hagree.step_other hlocal fun d hd hown => ?_) hrest
      exact hdisjoint d (List.mem_cons_of_mem c hd) c List.mem_cons_self hown hc

end Keyed
