import YcAgent.Base.Strings

/-!
# The environment of a process

An environment is a list of texts `name=value`, of which the last one of a name is in force. A
child gets a list without the texts that are out of force. Names may be folded, where the case
of their letters does not count.
-/
namespace Environ

open Go

def equals : Byte := 61

/-- The part before the first `=` that is not the first letter. -/
def name : GoString → Option GoString
  | [] => none
  | b :: rest =>
    if equals ∈ rest then some (b :: rest.takeWhile (· ≠ equals))
    else if b = equals then some [] else none

section Fold

variable (fold : GoString → GoString)

/-- The text is about the variable `k`. -/
def Names (k kv : GoString) : Prop := (name kv).map fold = some k

instance (k kv : GoString) : Decidable (Names fold k kv) :=
  inferInstanceAs (Decidable (_ = _))

/-- The text of a variable that is in force. -/
def lookup (env : List GoString) (k : GoString) : Option GoString :=
  (env.filter fun kv => Names fold k kv).getLast?

/-- `dedupEnv` of `os/exec`, on texts without a zero byte. -/
def dedupEnv : List GoString → List GoString
  | [] => []
  | kv :: env =>
    let out := dedupEnv env
    match name kv with
    | none => if kv = [] then out else kv :: out
    | some k => if out.any fun kv' => Names fold (fold k) kv' then out else kv :: out

variable {fold}

theorem lookup_append (env env' : List GoString) (k : GoString) :
    lookup fold (env ++ env') k = (lookup fold env' k).or (lookup fold env k) := by
  rw [lookup, List.filter_append, List.getLast?_append, lookup, lookup]

theorem lookup_cons (kv : GoString) (env : List GoString) (k : GoString) :
    lookup fold (kv :: env) k =
      (lookup fold env k).or (if Names fold k kv then some kv else none) := by
  have hone : lookup fold [kv] k = if Names fold k kv then some kv else none := by
    by_cases h : Names fold k kv
    · simp [lookup, h]
    · simp [lookup, h]
  rw [← List.singleton_append, lookup_append, hone]

theorem lookup_eq_none_iff {env : List GoString} {k : GoString} :
    lookup fold env k = none ↔ ∀ kv ∈ env, ¬ Names fold k kv := by
  rw [lookup, List.getLast?_eq_none_iff, List.filter_eq_nil_iff]
  simp only [decide_eq_true_eq]

/-- What is left out was not in force. -/
theorem lookup_dedupEnv (env : List GoString) (k : GoString) :
    lookup fold (dedupEnv fold env) k = lookup fold env k := by
  induction env with
  | nil => rfl
  | cons kv env ih =>
    rw [lookup_cons, ← ih, dedupEnv]
    cases hname : name kv with
    | none =>
      have hno : ¬ Names fold k kv := by
        unfold Names
        rw [hname]
        exact nofun
      rw [if_neg hno, Option.or_none]
      dsimp only
      split
      · rfl
      · rw [lookup_cons, if_neg hno, Option.or_none]
    | some k' =>
      dsimp only
      split
      · rename_i hany
        by_cases hk : Names fold k kv
        · -- the variable is set further on
          have hsame : fold k' = k := by
            unfold Names at hk
            rw [hname] at hk
            exact Option.some.inj hk
          obtain ⟨kv', hkv', hnames⟩ := List.any_eq_true.mp hany
          have hset : lookup fold (dedupEnv fold env) k ≠ none := fun hnone =>
            lookup_eq_none_iff.mp hnone kv' hkv' (hsame ▸ of_decide_eq_true hnames)
          obtain ⟨kv'', hkv''⟩ := Option.ne_none_iff_exists'.mp hset
          rw [hkv'', Option.some_or]
        · rw [if_neg hk, Option.or_none]
      · rw [lookup_cons]

/-- A list in front changes nothing where its variables are set behind it. -/
theorem lookup_append_eq_iff (env env' : List GoString) :
    (∀ k, lookup fold env' k = lookup fold (env ++ env') k) ↔
      ∀ k, lookup fold env k ≠ none → lookup fold env' k ≠ none := by
  refine forall_congr' fun k => ?_
  rw [lookup_append]
  cases lookup fold env' k with
  | some kv => simp
  | none => cases lookup fold env k <;> simp

end Fold

end Environ
