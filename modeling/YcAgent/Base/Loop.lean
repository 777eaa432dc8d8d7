import Mathlib.Init

/-!
# Loops without a condition

A turn of the loop returns or goes on with a new state. `Returns` says that enough turns
lead to a return; which result it is does not depend on how many are allowed.
-/
namespace Loop

variable {σ ρ : Type*} (turn : σ → ρ ⊕ σ)

/-- The result, where at most `fuel` turns lead to one. -/
def run : Nat → σ → Option ρ
  | 0, _ => none
  | fuel + 1, s =>
    match turn s with
    | .inl r => some r
    | .inr t => run fuel t

def Returns (s : σ) (r : ρ) : Prop := ∃ fuel, run turn fuel s = some r

/-- A state that turns which go on lead to. -/
inductive Reaches (s : σ) : σ → Prop where
  | refl : Reaches s s
  | next {t u : σ} : Reaches s t → turn t = .inr u → Reaches s u

variable {turn}

theorem returns_done {s : σ} {r : ρ} (h : turn s = .inl r) : Returns turn s r :=
  ⟨1, by simp only [run, h]⟩

theorem returns_next {s t : σ} {r : ρ} (h : turn s = .inr t) (ht : Returns turn t r) :
    Returns turn s r := by
  obtain ⟨fuel, hfuel⟩ := ht
  refine ⟨fuel + 1, ?_⟩
  simp only [run, h]
  exact hfuel

theorem run_unique {m n : Nat} {s : σ} {r r' : ρ} (hm : run turn m s = some r)
    (hn : run turn n s = some r') : r = r' := by
  induction m generalizing n s with
  | zero => cases hm
  | succ m ih =>
    cases n with
    | zero => cases hn
    | succ n =>
      unfold run at hm hn
      split at hm
      · rename_i hturn
        rw [hturn] at hn
        exact (Option.some.inj hm).symm.trans (Option.some.inj hn)
      · rename_i hturn
        rw [hturn] at hn
        exact ih hm hn

theorem run_stable {m n : Nat} {s : σ} {r : ρ} (h : run turn m s = some r) (hle : m ≤ n) :
    run turn n s = some r := by
  induction m generalizing n s with
  | zero => cases h
  | succ m ih =>
    cases n with
    | zero => omega
    | succ n =>
      unfold run at h ⊢
      split at h
      · exact h
      · exact ih h (Nat.le_of_succ_le_succ hle)

theorem Returns.unique {s : σ} {r r' : ρ} (h : Returns turn s r) (h' : Returns turn s r') :
    r = r' := by
  obtain ⟨m, hm⟩ := h
  obtain ⟨n, hn⟩ := h'
  exact run_unique hm hn

/-- A return after a turn is a return of the state that the turn leads to. -/
theorem Returns.next {s t : σ} {r : ρ} (h : Returns turn s r) (ht : turn s = .inr t) :
    Returns turn t r := by
  obtain ⟨fuel, hfuel⟩ := h
  cases fuel with
  | zero => cases hfuel
  | succ fuel =>
    simp only [run, ht] at hfuel
    exact ⟨fuel, hfuel⟩

/-- Partial correctness: what a turn keeps holds until a return, which makes `Q` of it. -/
theorem Returns.invariant {I : σ → Prop} {Q : ρ → Prop}
    (hdone : ∀ s r, I s → turn s = .inl r → Q r) (hnext : ∀ s t, I s → turn s = .inr t → I t)
    {s : σ} {r : ρ} (h : Returns turn s r) (hs : I s) : Q r := by
  obtain ⟨fuel, hfuel⟩ := h
  induction fuel generalizing s with
  | zero => cases hfuel
  | succ fuel ih =>
    unfold run at hfuel
    split at hfuel
    · rename_i hturn
      exact Option.some.inj hfuel ▸ hdone s _ hs hturn
    · rename_i t hturn
      exact ih (hnext s t hs hturn) hfuel

/-- What a turn that goes on keeps holds in every state that is reached. -/
theorem Reaches.invariant {I : σ → Prop} (hnext : ∀ s t, I s → turn s = .inr t → I t) {s t : σ}
    (h : Reaches turn s t) (hs : I s) : I t := by
  induction h with
  | refl => exact hs
  | next _ hturn ih => exact hnext _ _ ih hturn

/-- Total correctness: every turn from a state with `I` returns a result with `Q`, or goes on
in a state with `I` where the variant `v` is less. One turn more than the variant is enough. -/
theorem run_of_variant {I : σ → Prop} {Q : ρ → Prop} (v : σ → Nat)
    (hturn : ∀ s, I s → (∃ r, turn s = .inl r ∧ Q r) ∨ ∃ t, turn s = .inr t ∧ I t ∧ v t < v s)
    {s : σ} (hs : I s) : ∃ r, run turn (v s + 1) s = some r ∧ Q r := by
  induction hn : v s using Nat.strongRecOn generalizing s with
  | ind n ih =>
    obtain hdone | hnext := hturn s hs
    · obtain ⟨r, hr, hQ⟩ := hdone
      exact ⟨r, by simp only [run, hr], hQ⟩
    · obtain ⟨t, ht, hI, hv⟩ := hnext
      obtain ⟨r, hr, hQ⟩ := ih (v t) (hn ▸ hv) hI rfl
      refine ⟨r, ?_, hQ⟩
      simp only [run, ht]
      exact run_stable hr (by omega)

end Loop
