import Mathlib.Init

/-!
# Deferred calls

A function may register calls that run when it returns, the last one first, wherever it
returns. A call changes the state or panics, which is `none` here. `Triple P c Q` says that
from every state with `P` the call does not panic and ends in a state with `Q`.
-/
namespace Defer

variable {σ : Type*}

abbrev Call (σ : Type*) := σ → Option σ

/-- The calls that a function has deferred, the last one at the head. -/
abbrev Deferred (σ : Type*) := List (Call σ)

/-- What happens at a return. -/
def unwind : Deferred σ → Call σ
  | [], s => some s
  | d :: ds, s => (d s).bind (unwind ds)

def Triple (P : σ → Prop) (c : Call σ) (Q : σ → Prop) : Prop :=
  ∀ s, P s → ∃ t, c s = some t ∧ Q t

variable {P Q R : σ → Prop}

theorem Triple.mono_left {P' : σ → Prop} {c : Call σ} (h : Triple P c Q)
    (hP : ∀ s, P' s → P s) : Triple P' c Q :=
  fun s hs => h s (hP s hs)

theorem triple_unwind_nil (h : ∀ s, P s → Q s) : Triple P (unwind []) Q :=
  fun s hs => ⟨s, rfl, h s hs⟩

/-- The last deferred call runs first, and the others from where it ends. -/
theorem triple_unwind_cons {d : Call σ} {ds : Deferred σ} (hd : Triple P d R)
    (hds : Triple R (unwind ds) Q) : Triple P (unwind (d :: ds)) Q := by
  intro s hs
  obtain ⟨t, ht, hR⟩ := hd s hs
  obtain ⟨u, hu, hQ⟩ := hds t hR
  refine ⟨u, ?_, hQ⟩
  rw [unwind, ht, Option.bind_some, hu]

end Defer
