import YcAgent.Api.Action

/-!
# Runs of the worker

Up to the first call that fails, the worker calls `ProcessPids` once for every pid of the
result list, in its order. The first failing call is the last thing it does.
-/
namespace YcAgent.Api

open Go

section Worker

variable (o : Options) (s : Server) (req : ActionRequest) (parsed : Parsed)

/-- What call number `i` returns when it is made for `pid`. -/
def callResult (i : Nat) (pid : Int) : List GoString × Option GoString :=
  s.processPids i (invocation o req parsed pid)

def CallFails (i : Nat) (pid : Int) : Prop := (callResult o s req parsed i pid).2 ≠ none

instance (i : Nat) (pid : Int) : Decidable (CallFails o s req parsed i pid) :=
  inferInstanceAs (Decidable (_ ≠ _))

/-- What the loop stores from call number `i` on, when no call fails. -/
def stored (i : Nat) : List Entry → List (Entry × ProcessPidsResult)
  | [] => []
  | .int pid :: rest =>
    let rUrls := (callResult o s req parsed i pid).1
    (.int pid, ⟨rUrls, none, itoa pid :: rUrls⟩) :: stored (i + 1) rest
  | .string t :: rest => (.string t, ⟨[], none, [unsupportedOperation]⟩) :: stored i rest

theorem keys_stored (i : Nat) (result : List Entry) :
    (stored o s req parsed i result).map Prod.fst = result := by
  induction result generalizing i with
  | nil => rfl
  | cons e result ih =>
    cases e with
    | int pid => rw [stored, List.map_cons, ih]
    | string t => rw [stored, List.map_cons, ih]

/-- The name of an entry, as the first column of its row shows it. -/
def Entry.name : Entry → GoString
  | .int pid => itoa pid
  | .string _ => unsupportedOperation

theorem stored_row {i : Nat} {result : List Entry} :
    ∀ kv ∈ stored o s req parsed i result,
      kv.2.err = none ∧ kv.2.output.head? = some kv.1.name := by
  induction result generalizing i with
  | nil => simp [stored]
  | cons e result ih =>
    cases e with
    | int pid => exact List.forall_mem_cons.mpr ⟨⟨rfl, rfl⟩, ih⟩
    | string t => exact List.forall_mem_cons.mpr ⟨⟨rfl, rfl⟩, ih⟩

/-- The row of call number `k` of the result list. -/
theorem stored_split {i k : Nat} {pid : Int} {result : List Entry}
    (h : (pidsOf result)[k]? = some pid) :
    ∃ before after, result = before ++ .int pid :: after ∧ (pidsOf before).length = k ∧
      stored o s req parsed i result = stored o s req parsed i before ++
        (.int pid, ⟨(callResult o s req parsed (i + k) pid).1, none,
          itoa pid :: (callResult o s req parsed (i + k) pid).1⟩) ::
        stored o s req parsed (i + k + 1) after := by
  induction result generalizing i k with
  | nil => simp at h
  | cons e result ih =>
    cases e with
    | int p =>
      cases k with
      | zero =>
        simp only [pidsOf_int, List.getElem?_cons_zero, Option.some.injEq] at h
        subst h
        exact ⟨[], result, rfl, rfl, rfl⟩
      | succ k =>
        rw [pidsOf_int, List.getElem?_cons_succ] at h
        obtain ⟨before, after, rfl, hlen, hrows⟩ := ih (i := i + 1) h
        refine ⟨.int p :: before, after, rfl, by rw [pidsOf_int, List.length_cons, hlen], ?_⟩
        rw [stored, hrows, stored, Nat.add_right_comm i 1 k, Nat.add_assoc i k 1]
        rfl
    | string t =>
      rw [pidsOf_string] at h
      obtain ⟨before, after, rfl, hlen, hrows⟩ := ih (i := i) h
      refine ⟨.string t :: before, after, rfl, hlen, ?_⟩
      rw [stored, hrows, stored]
      rfl

variable {o s req parsed}

theorem processEntry_int {err : Option GoString} {w : Worker} {pid : Int}
    (h : ¬ CallFails o s req parsed w.invocations.length pid) :
    processEntry o s err req parsed w (.int pid) =
      .ok ⟨w.invocations ++ [invocation o req parsed pid], w.processPidsResults.set (.int pid)
        ⟨(callResult o s req parsed w.invocations.length pid).1, none,
          itoa pid :: (callResult o s req parsed w.invocations.length pid).1⟩⟩ := by
  have hnone : (s.processPids w.invocations.length (invocation o req parsed pid)).2 = none :=
    not_not.mp h
  simp only [processEntry, hnone, callResult]

theorem processEntry_int_fails {w : Worker} {pid : Int}
    (h : CallFails o s req parsed w.invocations.length pid) :
    processEntry o s none req parsed w (.int pid) =
      .error ⟨w.invocations ++ [invocation o req parsed pid], w.processPidsResults⟩ := by
  obtain ⟨e, he⟩ := Option.ne_none_iff_exists'.mp h
  have hsome : (s.processPids w.invocations.length (invocation o req parsed pid)).2 = some e := he
  simp only [processEntry, hsome]

theorem processEntries_cons_ok {err : Option GoString} {w w' : Worker} {e : Entry}
    (h : processEntry o s err req parsed w e = .ok w') (result : List Entry) :
    processEntries o s err req parsed w (e :: result) =
      processEntries o s err req parsed w' result := by
  rw [processEntries, List.foldlM_cons, h]
  rfl

/-- Without a failing call every pid is processed and every row is stored. -/
theorem processEntries_ok {err : Option GoString} {result : List Entry} {w : Worker}
    (h : ∀ k pid, (pidsOf result)[k]? = some pid →
      ¬ CallFails o s req parsed (w.invocations.length + k) pid) :
    processEntries o s err req parsed w result =
      .ok ⟨w.invocations ++ (pidsOf result).map (invocation o req parsed),
        w.processPidsResults.setAll (stored o s req parsed w.invocations.length result)⟩ := by
  induction result generalizing w with
  | nil =>
    simp only [processEntries, List.foldlM_nil, pidsOf_nil, List.map_nil, List.append_nil, stored]
    rfl
  | cons e result ih =>
    cases e with
    | int pid =>
      have hpid : ¬ CallFails o s req parsed w.invocations.length pid := h 0 pid rfl
      rw [processEntries_cons_ok (processEntry_int hpid), ih]
      · rw [pidsOf_int, List.map_cons, List.append_assoc, List.length_append, stored]
        rfl
      · intro k p hk
        rw [List.length_append, List.length_singleton, Nat.add_assoc, Nat.add_comm 1 k]
        exact h (k + 1) p hk
    | string t =>
      have hstep : processEntry o s err req parsed w (.string t) =
          .ok ⟨w.invocations, w.processPidsResults.set (.string t)
            ⟨[], none, [unsupportedOperation]⟩⟩ := rfl
      exact (processEntries_cons_ok hstep result).trans (ih (w := ⟨w.invocations, _⟩) h)

/-- The first failing call ends the loop. -/
theorem processEntries_error {result : List Entry} {w : Worker} {n : Nat} {pid : Int}
    (hn : (pidsOf result)[n]? = some pid)
    (hfail : CallFails o s req parsed (w.invocations.length + n) pid)
    (hbefore : ∀ k < n, ∀ p, (pidsOf result)[k]? = some p →
      ¬ CallFails o s req parsed (w.invocations.length + k) p) :
    ∃ results, processEntries o s none req parsed w result =
      .error ⟨w.invocations ++ ((pidsOf result).take (n + 1)).map (invocation o req parsed),
        results⟩ := by
  induction result generalizing w n with
  | nil => simp at hn
  | cons e result ih =>
    cases e with
    | int q =>
      cases n with
      | zero =>
        simp only [pidsOf_int, List.getElem?_cons_zero, Option.some.injEq] at hn
        subst hn
        refine ⟨w.processPidsResults, ?_⟩
        rw [processEntries, List.foldlM_cons, processEntry_int_fails hfail]
        rfl
      | succ n =>
        have hq : ¬ CallFails o s req parsed w.invocations.length q :=
          hbefore 0 (Nat.zero_lt_succ n) q rfl
        rw [pidsOf_int, List.getElem?_cons_succ] at hn
        rw [processEntries_cons_ok (processEntry_int hq)]
        have hlen : ∀ k, (w.invocations ++ [invocation o req parsed q]).length + k =
            w.invocations.length + (k + 1) := by
          intro k
          rw [List.length_append, List.length_singleton, Nat.add_assoc, Nat.add_comm 1 k]
        obtain ⟨results, hrun⟩ := ih (w := ⟨w.invocations ++ [invocation o req parsed q], _⟩) hn
          (by rw [hlen]; exact hfail)
          (by
            intro k hk p hp
            rw [hlen]
            exact hbefore (k + 1) (Nat.succ_lt_succ hk) p hp)
        refine ⟨results, hrun.trans ?_⟩
        rw [pidsOf_int, List.take_succ_cons, List.map_cons, List.append_assoc]
        rfl
    | string t =>
      have hstep : processEntry o s none req parsed w (.string t) =
          .ok ⟨w.invocations, w.processPidsResults.set (.string t)
            ⟨[], none, [unsupportedOperation]⟩⟩ := rfl
      rw [processEntries_cons_ok hstep]
      exact ih (w := ⟨w.invocations, _⟩) hn hfail hbefore

end Worker

/-! ## Filling the response -/

/-- The response that rows without an error give. -/
def filled (visited : List ProcessPidsResult) : ActionResponse :=
  ⟨0, [], visited.flatMap ProcessPidsResult.rUrls,
    if visited.length = 1 then [] else visited.map ProcessPidsResult.output⟩

theorem populate_of_no_error {order : RangeOrder Entry ProcessPidsResult} {err : Option GoString}
    {results : RangeMap Entry ProcessPidsResult} (h : ∀ kv ∈ results.entries, kv.2.err = none) :
    populate order err results .new =
      some (filled ((order.visit results.entries).map Prod.snd)) := by
  have hnone : ∀ r ∈ (order.visit results.entries).map Prod.snd, r.err = none := by
    intro r hr
    obtain ⟨kv, hkv, rfl⟩ := List.mem_map.mp hr
    exact h kv ((order.mem_visit _ kv).mp hkv)
  unfold populate filled
  generalize (order.visit results.entries).map Prod.snd = visited at hnone
  have hfold : ∀ (l : List ProcessPidsResult) (resp : ActionResponse),
      l.foldl (fun resp r => { resp with
        dashboardReportURLs := resp.dashboardReportURLs ++ r.rUrls
        output := resp.output ++ [r.output] }) resp =
      ⟨resp.code, resp.msg, resp.dashboardReportURLs ++ l.flatMap ProcessPidsResult.rUrls,
        resp.output ++ l.map ProcessPidsResult.output⟩ := by
    intro l
    induction l with
    | nil => intro resp; simp
    | cons r l ih => intro resp; simp [ih]
  by_cases hlen : visited.length = 1
  · obtain ⟨r, rfl⟩ := List.length_eq_one_iff.mp hlen
    have hr : r.err = none := hnone r List.mem_cons_self
    simp [hr, ActionResponse.new]
  · simp only [if_neg hlen, hfold]
    rfl

end YcAgent.Api
