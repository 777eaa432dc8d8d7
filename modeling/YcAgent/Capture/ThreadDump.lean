import YcAgent.Base.Decimal
import YcAgent.Base.Glob
import YcAgent.Base.Listing

/-!
# Thread dumps of a process

A capture numbers its rounds from one. Each round leaves a `javacore` and a `topdashH`
file with its number, where the steps of the round go well enough, and in the end all files
with such names are concatenated, in the order in which a shell lists them. The files stay
in the directory.

A capture is known by its place in the sequence, so a dump is a capture, a kind and a
round. What a file holds is a parameter of its own type.
-/
namespace YcAgent.Capture

open Go

/-- The order in which file names are listed. -/
local instance byteOrder : LinearOrder Byte where
  le_refl _ := UInt8.le_refl _
  le_trans _ _ _ := UInt8.le_trans
  lt_iff_le_not_ge a b := by
    rw [UInt8.lt_iff_toNat_lt, UInt8.le_iff_toNat_le, UInt8.le_iff_toNat_le]
    omega
  le_antisymm _ _ := UInt8.le_antisymm
  le_total := UInt8.le_total
  toDecidableLE := inferInstance

inductive DumpKind where
  | javacore
  | topdashH
  deriving DecidableEq

def DumpKind.stem : DumpKind → GoString
  | .javacore => str "javacore"
  | .topdashH => str "topdashH"

/-- The name of the file of a round. -/
def DumpKind.fileName (k : DumpKind) (n : Nat) : GoString :=
  k.stem ++ (str "." ++ (itoa n ++ str ".out"))

/-- The pattern that the shell expands. -/
def DumpKind.pattern (k : DumpKind) : GoString := k.stem ++ str ".*"

def defaultCount : Nat := 3

/-- Ten seconds, in nanoseconds. -/
def defaultTimeToSleep : Int := 10 * 10 ^ 9

/-- How many rounds a capture has. -/
def roundCount (tdCaptureDuration : Int) : Nat :=
  if tdCaptureDuration ≠ 0 then
    let effectiveDuration := max tdCaptureDuration defaultTimeToSleep
    max (effectiveDuration / defaultTimeToSleep).toNat 1
  else defaultCount

/-- A command with its output in the file of the round: whether the file could be created,
and whether the command went well. -/
structure DumpAttempt where
  creates : Bool
  ok : Bool

def DumpAttempt.done (a : DumpAttempt) : Bool := a.creates && a.ok

/-- How the steps of a round end. The last attempt creates the file, writes a line to it and
runs `jstack -F`. -/
structure DumpRound where
  jstack : DumpAttempt
  jattach : DumpAttempt
  copy2TempPath : Bool
  jattachTemp : DumpAttempt
  creates : Bool
  writeString : Bool
  jstackF : Bool
  processExists : Bool
  topHCreates : Bool

/-- One of the attempts before the last one gives a thread dump. -/
def DumpRound.attached (r : DumpRound) : Bool :=
  r.jstack.done || r.jattach.done || (r.copy2TempPath && r.jattachTemp.done)

/-- The goroutine goes on to the next round; it returns where the last attempt fails. -/
def DumpRound.goesOn (r : DumpRound) : Bool :=
  r.attached || (r.creates && r.writeString && r.jstackF)

/-- The round creates a `javacore` file, with a thread dump in it or not. -/
def DumpRound.writesJavacore (r : DumpRound) : Bool :=
  r.attached || r.jstack.creates || r.jattach.creates ||
    (r.copy2TempPath && r.jattachTemp.creates) || r.creates

/-- `TopH.Run` creates its file; how its commands end does not matter for that. -/
def DumpRound.writesTopH (r : DumpRound) : Bool := r.processExists && r.topHCreates

/-- A capture with its duration and what the system answers: whether the process exists, and
how the steps of every round end. -/
structure ThreadDump where
  processExists : Bool
  tdCaptureDuration : Int
  round : Nat → DumpRound

variable {γ δ : Type*}

/-- The rounds `ns` of `JStack.Run`; the goroutine of the `javacore` files may have returned. -/
def runRounds (content : DumpKind → Nat → γ) (round : Nat → DumpRound) :
    List Nat → Bool → Listing GoString γ → Listing GoString γ
  | [], _, d => d
  | n :: ns, alive, d =>
    let d :=
      if (round n).writesTopH then d.write (DumpKind.topdashH.fileName n) (content .topdashH n)
      else d
    let d :=
      if alive && (round n).writesJavacore then
        d.write (DumpKind.javacore.fileName n) (content .javacore n)
      else d
    runRounds content round ns (alive && (round n).goesOn) d

/-- The directory after a capture, what `threaddump.out` holds if the capture wrote it, and
whether the capture returns it. -/
structure Dumped (γ : Type*) where
  dir : Listing GoString γ
  out : Option (List γ)
  ok : Bool

def matching (k : DumpKind) (name : GoString) : Bool := globMatch k.pattern name

/-- `ThreadDump.captureFromProcess`. Where no name matches, `cat` fails, and the shell has
created the output file before. -/
def captureFromProcess (content : DumpKind → Nat → γ) (t : ThreadDump)
    (d : Listing GoString γ) : Dumped γ :=
  if t.processExists = false then ⟨d, none, false⟩
  else
    let d := runRounds content t.round (List.range' 1 (roundCount t.tdCaptureDuration)) true d
    let javacores := d.contents (matching .javacore)
    let topHs := d.contents (matching .topdashH)
    if javacores = [] then ⟨d, some [], false⟩
    else ⟨d, some (javacores ++ topHs), topHs ≠ []⟩

/-- The files a capture writes, in the order in which it does. -/
def writesFrom (round : Nat → DumpRound) : List Nat → Bool → List (DumpKind × Nat)
  | [], _ => []
  | n :: ns, alive =>
    (if (round n).writesTopH then [(DumpKind.topdashH, n)] else []) ++
      (if alive && (round n).writesJavacore then [(DumpKind.javacore, n)] else []) ++
      writesFrom round ns (alive && (round n).goesOn)

def ThreadDump.writes (t : ThreadDump) : List (DumpKind × Nat) :=
  if t.processExists = false then []
  else writesFrom t.round (List.range' 1 (roundCount t.tdCaptureDuration)) true

/-- The rounds of a capture that write a file of a kind. -/
def ThreadDump.rounds (t : ThreadDump) (k : DumpKind) : List Nat :=
  (t.writes.filter fun w => w.1 = k).map Prod.snd

/-- A file of a round with what it holds. -/
def dumpFile (content : DumpKind → Nat → γ) (w : DumpKind × Nat) : GoString × γ :=
  (w.1.fileName w.2, content w.1 w.2)

theorem runRounds_eq (content : DumpKind → Nat → γ) (round : Nat → DumpRound) (ns : List Nat)
    (alive : Bool) (d : Listing GoString γ) :
    runRounds content round ns alive d =
      d.writeAll ((writesFrom round ns alive).map (dumpFile content)) := by
  induction ns generalizing alive d with
  | nil => rfl
  | cons n ns ih =>
    rw [runRounds, ih, writesFrom, List.map_append, List.map_append]
    cases (round n).writesTopH <;> cases alive && (round n).writesJavacore <;> rfl

theorem mem_writesFrom {round : Nat → DumpRound} {ns : List Nat} {alive : Bool} {w : DumpKind × Nat}
    (h : w ∈ writesFrom round ns alive) : w.2 ∈ ns := by
  induction ns generalizing alive with
  | nil => cases h
  | cons n ns ih =>
    rw [writesFrom, List.append_assoc, List.mem_append, List.mem_append] at h
    rcases h with h | h | h
    · split at h
      · exact List.mem_cons.mpr (Or.inl (by rw [List.mem_singleton.mp h]))
      · cases h
    · split at h
      · exact List.mem_cons.mpr (Or.inl (by rw [List.mem_singleton.mp h]))
      · cases h
    · exact List.mem_cons_of_mem n (ih h)

theorem nodup_writesFrom (round : Nat → DumpRound) {ns : List Nat} (hns : ns.Nodup) (alive : Bool) :
    (writesFrom round ns alive).Nodup := by
  induction ns generalizing alive with
  | nil => exact List.nodup_nil
  | cons n ns ih =>
    obtain ⟨hn, hns⟩ := List.nodup_cons.mp hns
    have hrest := ih hns (alive && (round n).goesOn)
    have hnot : ∀ k : DumpKind, (k, n) ∉ writesFrom round ns (alive && (round n).goesOn) :=
      fun k h => hn (mem_writesFrom h)
    rw [writesFrom, List.append_assoc]
    cases (round n).writesTopH <;> cases alive && (round n).writesJavacore <;>
      simp [hrest, hnot]

theorem nodup_writes (t : ThreadDump) : t.writes.Nodup := by
  unfold ThreadDump.writes
  split
  · exact List.nodup_nil
  · exact nodup_writesFrom _ List.nodup_range' _

theorem length_stem (k : DumpKind) : k.stem.length = 8 := by cases k <;> rfl

theorem stem_injective {k l : DumpKind} (h : k.stem = l.stem) : k = l := by
  revert h
  cases k <;> cases l <;> decide

/-- The name of a file tells its kind and its round. -/
theorem fileName_injective {v w : DumpKind × Nat}
    (h : v.1.fileName v.2 = w.1.fileName w.2) : v = w := by
  obtain ⟨k, m⟩ := v
  obtain ⟨l, n⟩ := w
  have hlen : k.stem.length = l.stem.length := by rw [length_stem, length_stem]
  obtain ⟨hstem, hrest⟩ := List.append_inj h hlen
  have hkind : k = l := stem_injective hstem
  have hnum := List.append_cancel_right (List.append_cancel_left hrest)
  exact Prod.ext hkind (Int.ofNat_inj.mp (itoa_injective hnum))

theorem nodup_fileNames (content : DumpKind → Nat → γ) (t : ThreadDump) :
    ((t.writes.map (dumpFile content)).map Prod.fst).Nodup := by
  rw [List.map_map]
  exact (nodup_writes t).map fun v w h => fileName_injective h

theorem slash_not_mem_itoa (n : Int) : slash ∉ itoa n := by
  intro h
  rcases itoa_bytes slash h with h | h
  · exact absurd h (by decide)
  · exact absurd h (by decide)

/-- A name of one kind matches the pattern of that kind only. -/
theorem matching_fileName (k l : DumpKind) (n : Nat) :
    matching k (l.fileName n) = true ↔ l = k := by
  have hfront : ∀ c ∈ k.stem ++ str ".", ¬ IsMeta c := by cases k <;> decide
  have hpattern : k.pattern = (k.stem ++ str ".") ++ [star] := by cases k <;> rfl
  have hname : l.fileName n = (l.stem ++ str ".") ++ (itoa n ++ str ".out") := by
    rw [DumpKind.fileName, List.append_assoc]
  show Matches k.pattern (l.fileName n) ↔ l = k
  rw [hpattern, hname, matches_append hfront]
  constructor
  · intro h
    obtain ⟨t, ht, _⟩ := h
    have hlen : (l.stem ++ str ".").length = (k.stem ++ str ".").length := by
      rw [List.length_append, List.length_append, length_stem, length_stem]
    exact stem_injective (List.append_cancel_right (List.append_inj ht hlen).1)
  · intro h
    subst h
    refine ⟨_, rfl, matches_star.mpr ⟨_, [], (List.append_nil _).symm, ?_, matches_nil.mpr rfl⟩⟩
    intro hslash
    rcases List.mem_append.mp hslash with hslash | hslash
    · exact slash_not_mem_itoa _ hslash
    · exact absurd hslash (by decide)

/-- What the files of a kind that a capture writes hold, in the order of the rounds. -/
def ThreadDump.dumps (t : ThreadDump) (content : DumpKind → Nat → γ) (k : DumpKind) : List γ :=
  (t.rounds k).map (content k)

/-- The thread dumps of a capture, then its `top` outputs. -/
def ThreadDump.expected (t : ThreadDump) (content : DumpKind → Nat → γ) : List γ :=
  t.dumps content .javacore ++ t.dumps content .topdashH

theorem filter_writes (content : DumpKind → Nat → γ) (t : ThreadDump) (k : DumpKind) :
    (t.writes.map (dumpFile content)).filter (fun w => matching k w.1) =
      (t.rounds k).map fun n => dumpFile content (k, n) := by
  have hkind : ∀ w : DumpKind × Nat, matching k (dumpFile content w).1 = decide (w.1 = k) := by
    intro w
    rw [Bool.eq_iff_iff, decide_eq_true_iff]
    exact matching_fileName k w.1 w.2
  rw [List.filter_map, ThreadDump.rounds, List.map_map]
  simp only [Function.comp_def, hkind]
  refine List.map_congr_left fun w hw => ?_
  have hw' : w.1 = k := of_decide_eq_true (List.mem_filter.mp hw).2
  rw [← hw']

section Sequence

variable (content : Nat → DumpKind → Nat → γ)

/-- The directory after a sequence of captures. -/
def dirAfter (ts : List ThreadDump) : Listing GoString γ :=
  ts.zipIdx.foldl (fun d t => (captureFromProcess (content t.2) t.1 d).dir) Listing.empty

theorem dirAfter_concat (ts : List ThreadDump) (t : ThreadDump) :
    dirAfter content (ts ++ [t]) =
      (captureFromProcess (content ts.length) t (dirAfter content ts)).dir := by
  rw [dirAfter, List.zipIdx_append, List.foldl_append, Nat.zero_add]
  rfl

theorem dir_captureFromProcess (content : DumpKind → Nat → γ) (t : ThreadDump)
    (d : Listing GoString γ) :
    (captureFromProcess content t d).dir = d.writeAll (t.writes.map (dumpFile content)) := by
  unfold captureFromProcess ThreadDump.writes
  split
  · rfl
  · simp only [runRounds_eq]
    split <;> rfl

/-- Every file in the directory was written by a capture and is named after its round. -/
theorem mem_dirAfter {ts : List ThreadDump} {g : GoString × γ}
    (h : g ∈ (dirAfter content ts).files) :
    ∃ i t, ts[i]? = some t ∧ ∃ w ∈ t.writes, g = dumpFile (content i) w := by
  induction ts using List.reverseRecOn with
  | nil => cases h
  | append_singleton ts t ih =>
    rw [dirAfter_concat, dir_captureFromProcess, Listing.mem_writeAll (nodup_fileNames ..)] at h
    rcases h with h | ⟨h, _⟩
    · obtain ⟨w, hw, rfl⟩ := List.mem_map.mp h
      exact ⟨ts.length, t, List.getElem?_concat_length .., w, hw, rfl⟩
    · obtain ⟨i, t', ht', hw⟩ := ih h
      have hlt : i < ts.length := (List.getElem?_eq_some_iff.mp ht').choose
      exact ⟨i, t', by rwa [List.getElem?_append_left hlt], hw⟩

/-- A file that was written stays there, with what the last capture wrote to it. -/
theorem exists_mem_dirAfter {ts : List ThreadDump} {t : ThreadDump} (ht : t ∈ ts)
    {w : DumpKind × Nat} (hw : w ∈ t.writes) :
    ∃ x, (w.1.fileName w.2, x) ∈ (dirAfter content ts).files := by
  induction ts using List.reverseRecOn with
  | nil => cases ht
  | append_singleton ts t' ih =>
    rw [dirAfter_concat, dir_captureFromProcess]
    simp only [Listing.mem_writeAll (nodup_fileNames ..)]
    by_cases hown : w ∈ t'.writes
    · exact ⟨_, Or.inl (List.mem_map_of_mem hown)⟩
    · rcases List.mem_append.mp ht with ht | ht
      · obtain ⟨x, hx⟩ := ih ht
        refine ⟨x, Or.inr ⟨hx, fun hname => hown ?_⟩⟩
        rw [List.map_map] at hname
        obtain ⟨v, hv, heq⟩ := List.mem_map.mp hname
        exact fileName_injective heq ▸ hv
      · exact absurd (List.mem_singleton.mp ht ▸ hw) hown

/-- What a later change of the contents does to the directory. -/
theorem dirAfter_map (f : γ → δ) (ts : List ThreadDump) :
    dirAfter (fun i k n => f (content i k n)) ts = (dirAfter content ts).map f := by
  induction ts using List.reverseRecOn with
  | nil => rfl
  | append_singleton ts t ih =>
    rw [dirAfter_concat, dirAfter_concat, dir_captureFromProcess, dir_captureFromProcess, ih,
      ← Listing.writeAll_map, List.map_map]
    rfl

end Sequence

theorem out_captureFromProcess (content : DumpKind → Nat → γ) {t : ThreadDump}
    (ht : t.processExists = true) (d : Listing GoString γ) :
    (captureFromProcess content t d).out =
      let d := d.writeAll (t.writes.map (dumpFile content))
      if d.contents (matching .javacore) = [] then some []
      else some (d.contents (matching .javacore) ++ d.contents (matching .topdashH)) := by
  have hexists : ¬ t.processExists = false := by rw [ht]; decide
  unfold captureFromProcess ThreadDump.writes
  simp only [if_neg hexists, runRounds_eq]
  split <;> rfl

theorem out_map (content : DumpKind → Nat → γ) (t : ThreadDump) (d : Listing GoString γ)
    (f : γ → δ) :
    (captureFromProcess (fun k n => f (content k n)) t (d.map f)).out =
      (captureFromProcess content t d).out.map (List.map f) := by
  cases ht : t.processExists with
  | false => simp only [captureFromProcess, ht, if_true, Option.map_none]
  | true =>
    have hwrites : (d.map f).writeAll (t.writes.map (dumpFile fun k n => f (content k n))) =
        (d.writeAll (t.writes.map (dumpFile content))).map f := by
      rw [← Listing.writeAll_map, List.map_map]
      rfl
    rw [out_captureFromProcess _ ht, out_captureFromProcess _ ht, hwrites]
    simp only [Listing.contents_map, List.map_eq_nil_iff]
    split
    · rfl
    · rw [Option.map_some, List.map_append]

/-- A capture writes every file of a kind that was there before, and writes them in the order
of their names. -/
structure Separate (before : List ThreadDump) (t : ThreadDump) (k : DumpKind) : Prop where
  overwrites : ∀ b ∈ before, ∀ n ∈ b.rounds k, n ∈ t.rounds k
  inOrder : (t.rounds k).Pairwise fun m n => k.fileName m < k.fileName n

/-- A capture leaves nothing of earlier ones to be found; where it writes no thread dump, it
writes nothing else. -/
def Clean (before : List ThreadDump) (t : ThreadDump) : Prop :=
  t.processExists = true →
    Separate before t .javacore ∧
      if t.rounds .javacore = [] then t.rounds .topdashH = []
      else Separate before t .topdashH

theorem mem_rounds {t : ThreadDump} {k : DumpKind} {n : Nat} :
    n ∈ t.rounds k ↔ (k, n) ∈ t.writes := by
  rw [ThreadDump.rounds, List.mem_map]
  constructor
  · intro h
    obtain ⟨w, hw, rfl⟩ := h
    obtain ⟨hmem, hkind⟩ := List.mem_filter.mp hw
    obtain rfl : w.1 = k := of_decide_eq_true hkind
    exact hmem
  · intro h
    exact ⟨(k, n), List.mem_filter.mpr ⟨h, decide_eq_true rfl⟩, rfl⟩

/-- The files of a kind after a capture are its own ones in the order of their rounds, exactly
if it is separate from what was before. -/
theorem entries_iff_separate (content : Nat → DumpKind → Nat → γ) (before : List ThreadDump)
    (t : ThreadDump) (k : DumpKind) :
    ((dirAfter content before).writeAll
        (t.writes.map (dumpFile (content before.length)))).entries (matching k) =
      (t.rounds k).map (fun n => dumpFile (content before.length) (k, n)) ↔
        Separate before t k := by
  rw [← filter_writes, Listing.entries_writeAll_iff (nodup_fileNames ..), filter_writes,
    List.pairwise_map]
  constructor
  · intro h
    refine ⟨fun b hb n hn => ?_, h.2⟩
    obtain ⟨x, hx⟩ := exists_mem_dirAfter content hb (mem_rounds.mp hn)
    have hname := h.1 _ (Listing.mem_entries.mpr ⟨hx, (matching_fileName k k n).mpr rfl⟩)
    rw [List.map_map] at hname
    obtain ⟨w, hw, heq⟩ := List.mem_map.mp hname
    exact mem_rounds.mpr (fileName_injective (w := (k, n)) heq ▸ hw)
  · intro h
    refine ⟨fun g hg => ?_, h.inOrder⟩
    obtain ⟨hfile, hmatch⟩ := Listing.mem_entries.mp hg
    obtain ⟨i, b, hb, w, hw, rfl⟩ := mem_dirAfter content hfile
    obtain ⟨l, n⟩ := w
    obtain rfl : l = k := (matching_fileName k l n).mp hmatch
    have hown := h.overwrites b (List.mem_of_getElem? hb) n (mem_rounds.mpr hw)
    rw [List.map_map]
    exact List.mem_map.mpr ⟨(l, n), mem_rounds.mp hown, rfl⟩


theorem contents_of_separate (content : Nat → DumpKind → Nat → γ) {before : List ThreadDump}
    {t : ThreadDump} {k : DumpKind} (h : Separate before t k) :
    ((dirAfter content before).writeAll
        (t.writes.map (dumpFile (content before.length)))).contents (matching k) =
      t.dumps (content before.length) k := by
  rw [Listing.contents, (entries_iff_separate content before t k).mpr h, List.map_map]
  rfl

theorem dumps_eq_nil_iff {content : DumpKind → Nat → γ} {t : ThreadDump} {k : DumpKind} :
    t.dumps content k = [] ↔ t.rounds k = [] :=
  List.map_eq_nil_iff

/-- What a clean capture finds is its own, whatever the files hold. -/
theorem out_of_clean (content : Nat → DumpKind → Nat → γ) {before : List ThreadDump}
    {t : ThreadDump} (h : Clean before t) {out : List γ}
    (hout : (captureFromProcess (content before.length) t (dirAfter content before)).out =
      some out) :
    out = t.expected (content before.length) := by
  cases ht : t.processExists with
  | false =>
    simp only [captureFromProcess, ht, if_true] at hout
    cases hout
  | true =>
    obtain ⟨hjavacore, htopH⟩ := h ht
    rw [out_captureFromProcess _ ht] at hout
    simp only [contents_of_separate content hjavacore, dumps_eq_nil_iff] at hout
    by_cases hnone : t.rounds .javacore = []
    · rw [if_pos hnone] at hout htopH
      rw [ThreadDump.expected, dumps_eq_nil_iff.mpr hnone, dumps_eq_nil_iff.mpr htopH]
      exact (Option.some.inj hout).symm
    · rw [if_neg hnone] at hout htopH
      rw [contents_of_separate content htopH] at hout
      exact (Option.some.inj hout).symm

/-- A dump, by its capture, kind and round. -/
abbrev Dump := Nat × DumpKind × Nat

/-- Files that hold nothing but what they are. -/
def dumpTag (i : Nat) (k : DumpKind) (n : Nat) : Dump := (i, k, n)

/-- A file that holds its own dump has the name of that dump. -/
theorem entries_of_tags {before : List ThreadDump} {t : ThreadDump} {k : DumpKind}
    {g : GoString × Dump}
    (hg : g ∈ ((dirAfter dumpTag before).writeAll
      (t.writes.map (dumpFile (dumpTag before.length)))).entries (matching k)) :
    g.2.2.1 = k ∧ g = (k.fileName g.2.2.2, g.2) := by
  obtain ⟨hfile, hmatch⟩ := Listing.mem_entries.mp hg
  have hfrom : ∃ i w, g = dumpFile (dumpTag i) w := by
    rcases (Listing.mem_writeAll (nodup_fileNames ..)).mp hfile with h | ⟨h, _⟩
    · obtain ⟨w, -, rfl⟩ := List.mem_map.mp h
      exact ⟨_, w, rfl⟩
    · obtain ⟨i, -, -, w, -, rfl⟩ := mem_dirAfter dumpTag h
      exact ⟨i, w, rfl⟩
  obtain ⟨i, w, rfl⟩ := hfrom
  have hk : w.1 = k := (matching_fileName k w.1 w.2).mp hmatch
  exact ⟨hk, by rw [← hk]; rfl⟩

theorem separate_of_contents {before : List ThreadDump} {t : ThreadDump} {k : DumpKind}
    (h : ((dirAfter dumpTag before).writeAll
        (t.writes.map (dumpFile (dumpTag before.length)))).contents (matching k) =
      t.dumps (dumpTag before.length) k) :
    Separate before t k := by
  rw [← entries_iff_separate dumpTag before t k]
  generalize hd : (dirAfter dumpTag before).writeAll _ = d at h ⊢
  let back : Dump → GoString × Dump := fun x => (k.fileName x.2.2, x)
  have hself : ∀ g ∈ d.entries (matching k), back g.2 = g := by
    intro g hg
    rw [← hd] at hg
    exact (entries_of_tags hg).2.symm
  calc d.entries (matching k) = (d.entries (matching k)).map (fun g => back g.2) :=
      ((List.map_congr_left hself).trans (List.map_id' _)).symm
    _ = (d.contents (matching k)).map back := by rw [Listing.contents, List.map_map]; rfl
    _ = (t.dumps (dumpTag before.length) k).map back := by rw [h]
    _ = (t.rounds k).map (fun n => dumpFile (dumpTag before.length) (k, n)) := by
      rw [ThreadDump.dumps, List.map_map]
      rfl

/-- Dumps of one kind on either side of an equation are the same dumps. -/
theorem append_inj_of_kinds {js ts js' ts' : List Dump}
    (hjs : ∀ x ∈ js, x.2.1 = .javacore) (hts : ∀ x ∈ ts, x.2.1 = .topdashH)
    (hjs' : ∀ x ∈ js', x.2.1 = .javacore) (hts' : ∀ x ∈ ts', x.2.1 = .topdashH)
    (h : js ++ ts = js' ++ ts') : js = js' ∧ ts = ts' := by
  have hleft : ∀ {xs ys : List Dump}, (∀ x ∈ xs, x.2.1 = DumpKind.javacore) →
      (∀ x ∈ ys, x.2.1 = DumpKind.topdashH) →
      (xs ++ ys).filter (fun x => x.2.1 = DumpKind.javacore) = xs := by
    intro xs ys hxs hys
    rw [List.filter_append, List.filter_eq_self.mpr fun x hx => decide_eq_true (hxs x hx),
      List.filter_eq_nil_iff.mpr fun x hx => by rw [hys x hx]; decide, List.append_nil]
  have heq : js = js' := by rw [← hleft hjs hts, h, hleft hjs' hts']
  subst heq
  exact ⟨rfl, List.append_cancel_left h⟩

/-- Where the files hold nothing but what they are, a capture finds exactly its own ones only
if it is clean. -/
theorem clean_of_tags {before : List ThreadDump} {t : ThreadDump}
    (h : ∀ out, (captureFromProcess (dumpTag before.length) t (dirAfter dumpTag before)).out =
      some out → out = t.expected (dumpTag before.length)) :
    Clean before t := by
  intro ht
  rw [out_captureFromProcess _ ht] at h
  have hkinds : ∀ k, ∀ x ∈ t.dumps (dumpTag before.length) k, x.2.1 = k := by
    intro k x hx
    obtain ⟨n, -, rfl⟩ := List.mem_map.mp hx
    rfl
  have hfound : ∀ k, ∀ x ∈ ((dirAfter dumpTag before).writeAll
      (t.writes.map (dumpFile (dumpTag before.length)))).contents (matching k), x.2.1 = k := by
    intro k x hx
    obtain ⟨g, hg, rfl⟩ := List.mem_map.mp hx
    exact (entries_of_tags hg).1
  simp only at h
  split at h
  · rename_i hnone
    have hnil := (List.append_eq_nil_iff.mp (h [] rfl).symm)
    have htopH := dumps_eq_nil_iff.mp hnil.2
    refine ⟨separate_of_contents (hnone.trans hnil.1.symm), ?_⟩
    rw [if_pos (dumps_eq_nil_iff.mp hnil.1)]
    exact htopH
  · rename_i hsome
    obtain ⟨hjavacore, htopH⟩ := append_inj_of_kinds (hfound _) (hfound _) (hkinds _) (hkinds _)
      (h _ rfl)
    refine ⟨separate_of_contents hjavacore, ?_⟩
    rw [if_neg fun hnil => hsome (hjavacore.trans (dumps_eq_nil_iff.mpr hnil))]
    exact separate_of_contents htopH

/-- `threaddump.out` is what the files of the capture hold, in the order of the rounds. -/
def Exact (content : Nat → DumpKind → Nat → GoString) (before : List ThreadDump)
    (t : ThreadDump) : Prop :=
  ∀ out, (captureFromProcess (content before.length) t (dirAfter content before)).out =
    some out → out.flatten = (t.expected (content before.length)).flatten

/-- A capture is exact whatever its files hold, exactly if it is clean. -/
theorem exact_iff_clean (before : List ThreadDump) (t : ThreadDump) :
    (∀ content, Exact content before t) ↔ Clean before t := by
  constructor
  · intro h
    refine clean_of_tags fun out hout => ?_
    -- One byte for each dump is enough to tell the dumps apart.
    refine Listing.eq_of_forall_map_eq (show (0 : Byte) ≠ 1 by decide) fun f => ?_
    let bytes : Dump → GoString := fun x => [f x]
    have hbytes := h (fun i k n => bytes (dumpTag i k n)) (out.map bytes) (by
      rw [dirAfter_map, out_map, hout]
      rfl)
    have hexpected : t.expected (fun k n => bytes (dumpTag before.length k n)) =
        (t.expected (dumpTag before.length)).map bytes := by
      simp only [ThreadDump.expected, ThreadDump.dumps, List.map_append, List.map_map]
      rfl
    rw [hexpected] at hbytes
    have hflat : ∀ xs : List Dump, (xs.map bytes).flatten = xs.map f := by
      intro xs
      induction xs with
      | nil => rfl
      | cons x xs ih => exact congrArg (f x :: ·) ih
    rwa [hflat, hflat] at hbytes
  · intro h content out hout
    rw [out_of_clean content h hout]

/-- The thread dumps of a sequence of captures in one directory are exact, whatever the files
hold, exactly if every capture is clean. -/
theorem threadDumps_exact_iff (ts : List ThreadDump) :
    (∀ content before t after, ts = before ++ t :: after → Exact content before t) ↔
      ∀ before t after, ts = before ++ t :: after → Clean before t := by
  constructor
  · intro h before t after hts
    exact (exact_iff_clean before t).mp fun content => h content before t after hts
  · intro h content before t after hts
    exact (exact_iff_clean before t).mpr (h before t after hts) content

/-- Up to nine, the names of the files are in the order of their numbers. -/
theorem fileName_lt (k : DumpKind) : ∀ n < 10, ∀ m < n, k.fileName m < k.fileName n := by
  cases k <;> decide

theorem pairwise_writesFrom (round : Nat → DumpRound) {ns : List Nat} (hns : ns.Pairwise (· < ·))
    (alive : Bool) :
    (writesFrom round ns alive).Pairwise fun v w => v.1 = w.1 → v.2 < w.2 := by
  induction ns generalizing alive with
  | nil => exact List.Pairwise.nil
  | cons n ns ih =>
    obtain ⟨hn, hns⟩ := List.pairwise_cons.mp hns
    have hrest := ih hns (alive && (round n).goesOn)
    have hlater : ∀ w ∈ writesFrom round ns (alive && (round n).goesOn), n < w.2 :=
      fun w hw => hn w.2 (mem_writesFrom hw)
    rw [writesFrom, List.append_assoc]
    cases (round n).writesTopH <;> cases alive && (round n).writesJavacore
    · exact hrest
    · exact List.pairwise_cons.mpr ⟨fun w hw _ => hlater w hw, hrest⟩
    · exact List.pairwise_cons.mpr ⟨fun w hw _ => hlater w hw, hrest⟩
    · refine List.pairwise_cons.mpr ⟨fun w hw heq => ?_,
        List.pairwise_cons.mpr ⟨fun w hw _ => hlater w hw, hrest⟩⟩
      rcases List.mem_cons.mp hw with rfl | hw
      · cases heq
      · exact hlater w hw

/-- A capture with fewer than ten rounds writes its files in the order of their names. -/
theorem inOrder_of_roundCount {t : ThreadDump} (h : roundCount t.tdCaptureDuration < 10)
    (k : DumpKind) : (t.rounds k).Pairwise fun m n => k.fileName m < k.fileName n := by
  have hwrites : t.writes.Pairwise fun v w => v.1 = w.1 → v.2 < w.2 := by
    unfold ThreadDump.writes
    split
    · exact List.Pairwise.nil
    · exact pairwise_writesFrom _ List.pairwise_lt_range' _
  have hsmall : ∀ w ∈ t.writes, w.2 < 10 := by
    intro w hw
    unfold ThreadDump.writes at hw
    split at hw
    · cases hw
    · have hrange := List.mem_range'_1.mp (mem_writesFrom hw)
      omega
  rw [ThreadDump.rounds, List.pairwise_map]
  refine (hwrites.filter _).imp_of_mem fun hv hw hlt => ?_
  obtain ⟨-, hvk⟩ := List.mem_filter.mp hv
  obtain ⟨hwmem, hwk⟩ := List.mem_filter.mp hw
  have hkinds := (of_decide_eq_true hvk).trans (of_decide_eq_true hwk).symm
  exact fileName_lt k _ (hsmall _ hwmem) _ (hlt hkinds)

/-- A round in which everything goes well. -/
def goodRound : DumpRound :=
  ⟨⟨true, true⟩, ⟨true, true⟩, true, ⟨true, true⟩, true, true, true, true, true⟩

/-- A capture of the default three rounds, and one of ten seconds. -/
def threeRounds : ThreadDump := ⟨true, 0, fun _ => goodRound⟩
def tenSeconds : ThreadDump := ⟨true, defaultTimeToSleep, fun _ => goodRound⟩

/-- The second capture finds the second and the third round of the first one. -/
theorem threadDumps_not_exact :
    ¬ ∀ (ts : List ThreadDump) (content : Nat → DumpKind → Nat → GoString)
      (before : List ThreadDump) (t : ThreadDump) (after : List ThreadDump),
        ts = before ++ t :: after → Exact content before t := by
  intro h
  have hclean : Clean [threeRounds] tenSeconds := (exact_iff_clean _ _).mp fun content =>
    h [threeRounds, tenSeconds] content [threeRounds] tenSeconds [] rfl
  have htwo : 2 ∈ tenSeconds.rounds .javacore :=
    (hclean rfl).1.overwrites threeRounds (List.mem_singleton.mpr rfl) 2 (by decide)
  exact absurd htwo (by decide)

end YcAgent.Capture
