import YcAgent.Base.CString
import YcAgent.Base.Lines
import YcAgent.Executils.Hookers

/-!
# Whose process it is

`get_process_info` reads the effective user and group of the target from its status file, and its
number in the innermost namespace. Kernels without a line for that have it looked up by the
`sched` files of the container, whose first line ends in the number on the host.
-/
namespace YcAgent.Attach

open Go CString

def tab : Byte := 9

def paren : Byte := 40

/-- The cast of an `int` to an `uid_t` or a `gid_t`. -/
def toId (v : ℤ) : UInt32 := UInt32.ofInt v

structure ProcessInfo where
  uid : UInt32
  gid : UInt32
  nspid : ℤ

/-- An entry of the `/proc` of the container, with its `sched` file. -/
structure ProcEntry where
  name : GoString
  sched : Option GoString

/-- What `alt_lookup_nspid` finds: whether the namespace is the own one, and the entries. -/
structure NamespaceWorld where
  sameNs : Bool
  entries : List ProcEntry

/-- The first line of a `sched` file is `java (1234, #threads: 12)`. -/
def schedGetHostPid (sched : Option GoString) : ℤ :=
  match sched with
  | none => -1
  | some content =>
    match (Text.lines newline content).head? with
    | none => -1
    | some line =>
      match strrchr line paren with
      | none => -1
      | some c => CString.atoi (c.drop 1)

/-- The entry is that of a process which the host knows as `pid`. -/
def isMatch (pid : ℤ) (e : ProcEntry) : Bool :=
  e.name.head?.any (fun b => 49 ≤ b && b ≤ 57) && schedGetHostPid e.sched == pid

def altLookupNspid (w : NamespaceWorld) (pid : ℤ) : ℤ :=
  if w.sameNs then pid
  else
    match w.entries.find? (isMatch pid) with
    | some e => CString.atoi e.name
    | none => pid

/-- The variables of the loop over the lines. -/
structure Reading extends ProcessInfo where
  nspidFound : Bool

/-- One turn of the loop; `none` is a number read through a null pointer. -/
def readLine (r : Reading) (line : GoString) : Option Reading :=
  if hasPrefix line (str "Uid:") then
    (strchr (line.drop 5) tab).map fun c => { r with uid := toId (CString.atoi c) }
  else if hasPrefix line (str "Gid:") then
    (strchr (line.drop 5) tab).map fun c => { r with gid := toId (CString.atoi c) }
  else if hasPrefix line (str "NStgid:") then
    (strrchr line tab).map fun c => { r with nspid := CString.atoi c, nspidFound := true }
  else some r

/-- `get_process_info`, with the variables that it is to fill; the inner `none` is its `-1`. -/
def getProcessInfo (status : Option GoString) (w : NamespaceWorld) (pid : ℤ)
    (init : ProcessInfo) : Option (Option ProcessInfo) :=
  match status with
  | none => some none
  | some content =>
    ((Text.lines newline content).foldlM readLine ⟨init, false⟩).map fun r =>
      some (if r.nspidFound then r.toProcessInfo
        else { r.toProcessInfo with nspid := altLookupNspid w pid })

/-! ## The status file -/

structure Ids where
  real : UInt32
  effective : UInt32
  saved : UInt32
  fs : UInt32

def number (n : UInt32) : GoString := decimal n.toNat

def idLine (name : GoString) (i : Ids) : GoString :=
  name ++ tab :: number i.real ++ tab :: number i.effective ++ tab :: number i.saved ++
    tab :: number i.fs

/-- The numbers of a process in the namespaces that it is in, the innermost one last. -/
structure NsPids where
  outer : List ℕ
  inner : ℕ
  small : inner < 2 ^ 31

def NsPids.line (n : NsPids) : GoString :=
  str "NStgid:" ++ (n.outer.flatMap fun p => tab :: decimal p) ++ tab :: decimal n.inner

/-- The line is there, and no other one has its name. -/
structure Has (lines : List GoString) (name line : GoString) : Prop where
  mem : line ∈ lines
  only : ∀ l ∈ lines, name <+: l → l = line

/-- A status file as the kernel writes it. -/
structure StatusFile where
  lines : List GoString
  uid : Ids
  gid : Ids
  nspids : Option NsPids
  clean : ∀ l ∈ lines, newline ∉ l ∧ nul ∉ l
  hasUid : Has lines (str "Uid:") (idLine (str "Uid:") uid)
  hasGid : Has lines (str "Gid:") (idLine (str "Gid:") gid)
  hasPids : match nspids with
    | none => ∀ l ∈ lines, ¬ str "NStgid:" <+: l
    | some n => Has lines (str "NStgid:") n.line

def StatusFile.text (st : StatusFile) : GoString := st.lines.flatMap (· ++ [newline])

/-! ## One line -/

theorem tab_ne_nul : tab ≠ nul := by decide

theorem not_digit {b : Byte} (hb : b ∈ [tab, newline, nul, 44]) : ¬ IsDigit b := by
  simp only [List.mem_cons, List.not_mem_nil, or_false] at hb
  rcases hb with rfl | rfl | rfl | rfl <;> decide

theorem not_mem_number {b : Byte} (hb : b ∈ [tab, newline, nul, 44]) (n : ℕ) : b ∉ decimal n :=
  fun h => not_digit hb (isDigit_of_mem_decimal b h)

theorem toId_atoi (n : UInt32) {b : Byte} (hb : b ∈ [tab, newline, nul, 44]) (rest : GoString) :
    toId (CString.atoi (number n ++ b :: rest)) = n := by
  have hmod := @atoi_decimal_mod n.toNat n.toNat_lt (b :: rest) fun c hc => by
    obtain rfl := Option.some.inj hc
    exact not_digit hb
  have hnat : UInt32.ofNat ((CString.atoi (number n ++ b :: rest)) % 2 ^ 32).toNat = n := by
    rw [number, hmod, Int.toNat_natCast, UInt32.ofNat_toNat]
  exact hnat

/-- The second number of a line of credentials. -/
theorem effective_of_line {name : GoString} (hname : name.length = 4) (i : Ids) :
    (strchr ((idLine name i ++ [newline]).drop 5) tab).map (fun c => toId (CString.atoi c)) =
      some i.effective := by
  let tail : GoString := number i.effective ++
    tab :: (number i.saved ++ tab :: (number i.fs ++ [newline]))
  have hdrop : (idLine name i ++ [newline]).drop 5 = number i.real ++ tab :: tail := by
    have hline : idLine name i ++ [newline] =
        (name ++ [tab]) ++ (number i.real ++ tab :: tail) := by
      simp [idLine, tail]
    rw [hline]
    exact List.drop_left' (by simp [hname])
  have hnumber : ∀ n : UInt32, nul ∉ number n := fun n => not_mem_number (by simp) n.toNat
  have hreal : tab ∉ number i.real := not_mem_number (by simp) i.real.toNat
  have hclean : nul ∉ tail := by
    have htab : nul ≠ tab := by decide
    have hnewline : nul ≠ newline := by decide
    simp [tail, hnumber, htab, hnewline]
  rw [hdrop, strchr_append tab_ne_nul (hnumber _) hreal, string_of_not_mem hclean,
    Option.map_some, atoi_space (by decide)]
  exact congrArg some (toId_atoi i.effective (b := tab) (by simp) _)

theorem inner_of_line (n : NsPids) :
    (strrchr (n.line ++ [newline]) tab).map (fun c => CString.atoi c) = some (n.inner : ℤ) := by
  let outer : GoString := str "NStgid:" ++ n.outer.flatMap fun p => tab :: decimal p
  have hline : n.line ++ [newline] = outer ++ tab :: (decimal n.inner ++ [newline]) := by
    simp [NsPids.line, outer]
  have hnumber : ∀ p, nul ∉ decimal p := fun p => not_mem_number (by simp) p
  have htab : nul ≠ tab := by decide
  have hnewline : nul ≠ newline := by decide
  have hname : nul ∉ str "NStgid:" := by decide
  have hclean : nul ∉ outer ++ (decimal n.inner ++ [newline]) := by
    simp [outer, hnumber, htab, hnewline, hname]
  have hlast : tab ∉ decimal n.inner ++ [newline] := by
    have hnewline : tab ≠ newline := by decide
    simp [not_mem_number (b := tab) (by simp) n.inner, hnewline]
  have hhead : ∀ b ∈ ([newline] : GoString).head?, ¬ IsDigit b := by
    intro b hb
    obtain rfl := Option.some.inj hb
    exact not_digit (by simp)
  have hitoa : decimal n.inner = itoa n.inner := (itoa_of_nonneg (Int.natCast_nonneg _)).symm
  rw [hline, strrchr_append tab_ne_nul hclean hlast, Option.map_some, atoi_space (by decide), hitoa]
  have hsmall := n.small
  exact congrArg some (atoi_itoa ⟨by omega, by omega⟩ hhead)

theorem hasPrefix_snoc {name l : GoString} (hname : newline ∉ name) :
    hasPrefix (l ++ [newline]) name = hasPrefix l name := by
  rw [Bool.eq_iff_iff, hasPrefix_iff, hasPrefix_iff, List.prefix_concat_iff]
  refine or_iff_right fun h => hname ?_
  rw [h]
  exact List.mem_append_right l (List.mem_singleton.mpr rfl)

theorem hasPrefix_other {l a b : GoString} (ha : hasPrefix l a = true) (hab : ¬ a <+: b)
    (hba : ¬ b <+: a) : hasPrefix l b = false := by
  rw [Bool.eq_false_iff, ne_eq, hasPrefix_iff]
  intro hb
  exact (List.prefix_or_prefix_of_prefix ((hasPrefix_iff _ _).mp ha) hb).elim hab hba

namespace StatusFile

variable (st : StatusFile)

/-- What a line of the file adds to what was read. -/
def learn (r : Reading) (l : GoString) : Reading where
  uid := if hasPrefix l (str "Uid:") then st.uid.effective else r.uid
  gid := if hasPrefix l (str "Gid:") then st.gid.effective else r.gid
  nspid := if hasPrefix l (str "NStgid:") then (st.nspids.map fun n => (n.inner : ℤ)).getD r.nspid
    else r.nspid
  nspidFound := hasPrefix l (str "NStgid:") || r.nspidFound

variable {st}

/-- A turn of the loop on a line of the file. -/
theorem readLine_eq (r : Reading) {l : GoString} (hl : l ∈ st.lines) :
    readLine r (l ++ [newline]) = some (st.learn r l) := by
  unfold readLine learn
  rw [hasPrefix_snoc (by decide), hasPrefix_snoc (by decide), hasPrefix_snoc (by decide)]
  cases hu : hasPrefix l (str "Uid:") with
  | true =>
    have hg : hasPrefix l (str "Gid:") = false := hasPrefix_other hu (by decide) (by decide)
    have hn : hasPrefix l (str "NStgid:") = false := hasPrefix_other hu (by decide) (by decide)
    obtain ⟨c, hc, hval⟩ := Option.map_eq_some_iff.mp
      (effective_of_line (rfl : (str "Uid:").length = 4) st.uid)
    rw [hg, hn, if_pos rfl, st.hasUid.only l hl ((hasPrefix_iff _ _).mp hu), hc, Option.map_some,
      hval]
    rfl
  | false =>
    cases hg : hasPrefix l (str "Gid:") with
    | true =>
      have hn : hasPrefix l (str "NStgid:") = false := hasPrefix_other hg (by decide) (by decide)
      obtain ⟨c, hc, hval⟩ := Option.map_eq_some_iff.mp
        (effective_of_line (rfl : (str "Gid:").length = 4) st.gid)
      rw [hn, if_neg Bool.false_ne_true, if_pos rfl,
        st.hasGid.only l hl ((hasPrefix_iff _ _).mp hg), hc, Option.map_some, hval]
      rfl
    | false =>
      rw [if_neg Bool.false_ne_true, if_neg Bool.false_ne_true]
      cases hn : hasPrefix l (str "NStgid:") with
      | true =>
        have hpids := st.hasPids
        cases hnone : st.nspids with
        | none =>
          rw [hnone] at hpids
          exact absurd ((hasPrefix_iff _ _).mp hn) (hpids l hl)
        | some n =>
          rw [hnone] at hpids
          obtain ⟨c, hc, hval⟩ := Option.map_eq_some_iff.mp (inner_of_line n)
          rw [hpids.only l hl ((hasPrefix_iff _ _).mp hn), hc, if_pos rfl, Option.map_some, hval]
          rfl
      | false => rfl

theorem lines_text (st : StatusFile) :
    Text.lines newline st.text = st.lines.map (· ++ [newline]) :=
  Text.lines_flatMap fun l hl => (st.clean l hl).1

/-- The loop learns each line. -/
theorem foldlM_readLine (r : Reading) :
    (Text.lines newline st.text).foldlM readLine r = some (st.lines.foldl st.learn r) := by
  rw [lines_text]
  have hall : ∀ (ls : List GoString) (r : Reading), (∀ l ∈ ls, l ∈ st.lines) →
      (ls.map (· ++ [newline])).foldlM readLine r = some (ls.foldl st.learn r) := by
    intro ls
    induction ls with
    | nil => exact fun r _ => rfl
    | cons l ls ih =>
      intro r hls
      obtain ⟨hl, hls⟩ := List.forall_mem_cons.mp hls
      rw [List.map_cons, List.foldlM_cons, readLine_eq r hl]
      exact ih (st.learn r l) hls
  exact hall st.lines r fun l hl => hl

theorem ite_or {α : Type*} (x y : Bool) (a b : α) :
    (if y = true then a else if x = true then a else b) = if (x || y) = true then a else b := by
  cases x <;> cases y <;> rfl

/-- What was learned once stays, and what no line says is as it was. -/
theorem foldl_learn (ls : List GoString) (r : Reading) :
    ((ls.foldl st.learn r).uid =
      if ls.any (hasPrefix · (str "Uid:")) then st.uid.effective else r.uid) ∧
    ((ls.foldl st.learn r).gid =
      if ls.any (hasPrefix · (str "Gid:")) then st.gid.effective else r.gid) ∧
    ((ls.foldl st.learn r).nspid =
      if ls.any (hasPrefix · (str "NStgid:")) then
        (st.nspids.map fun n => (n.inner : ℤ)).getD r.nspid else r.nspid) ∧
    (ls.foldl st.learn r).nspidFound = (ls.any (hasPrefix · (str "NStgid:")) || r.nspidFound) := by
  induction ls generalizing r with
  | nil => exact ⟨rfl, rfl, rfl, rfl⟩
  | cons l ls ih =>
    obtain ⟨huid, hgid, hnspid, hfound⟩ := ih (st.learn r l)
    rw [List.foldl_cons, huid, hgid, hnspid, hfound]
    simp only [List.any_cons]
    have hor : ∀ x y z : Bool, (y || (x || z)) = ((x || y) || z) := by decide
    refine ⟨ite_or _ _ _ _, ite_or _ _ _ _, ?_, hor _ _ _⟩
    unfold learn
    cases st.nspids with
    | none =>
      simp
    | some n => exact ite_or _ _ _ _

theorem any_of_has {lines : List GoString} {name line : GoString} (h : Has lines name line)
    (hname : name <+: line) : lines.any (hasPrefix · name) = true :=
  List.any_eq_true.mpr ⟨line, h.mem, (hasPrefix_iff _ _).mpr hname⟩

theorem name_prefix_idLine (name : GoString) (i : Ids) : name <+: idLine name i := by
  simp only [idLine, List.append_assoc]
  exact List.prefix_append _ _

theorem name_prefix_line (n : NsPids) : str "NStgid:" <+: n.line := by
  rw [NsPids.line, List.append_assoc]
  exact List.prefix_append _ _

/-- The number of the process for itself. -/
def nspid (st : StatusFile) (w : NamespaceWorld) (pid : ℤ) : ℤ :=
  match st.nspids with
  | some n => n.inner
  | none => altLookupNspid w pid

end StatusFile

/-! ## Kernels before 4.1 -/

/-- A process of the container: its number there, its name, and its number on the host. -/
structure Contained where
  nspid : ℕ
  comm : GoString
  host : ℕ
  threads : ℕ
  rest : GoString
  clean : newline ∉ comm ∧ nul ∉ comm
  small : 0 < nspid ∧ nspid < 2 ^ 31 ∧ host < 2 ^ 31

namespace Contained

variable (c : Contained)

def schedTail : GoString :=
  decimal c.host ++ str ", #threads: " ++ decimal c.threads ++ str ")"

def sched : GoString :=
  c.comm ++ str " (" ++ c.schedTail ++ newline :: c.rest

def entry : ProcEntry := ⟨decimal c.nspid, some c.sched⟩

theorem not_mem_schedTail {b : Byte} (hb : b = newline ∨ b = nul ∨ b = paren) :
    b ∉ c.schedTail := by
  have hdigit : ¬ IsDigit b := by rcases hb with rfl | rfl | rfl <;> decide
  have hnumber : ∀ n, b ∉ decimal n := fun n h => hdigit (isDigit_of_mem_decimal b h)
  have htext : b ∉ str ", #threads: " := by rcases hb with rfl | rfl | rfl <;> decide
  have hend : b ∉ str ")" := by rcases hb with rfl | rfl | rfl <;> decide
  simp [schedTail, hnumber, htext, hend]

/-- The number on the host is behind the last parenthesis, also where the name has one. -/
theorem schedGetHostPid_sched : schedGetHostPid (some c.sched) = c.host := by
  have hnl := c.not_mem_schedTail (Or.inl rfl)
  have hnul := c.not_mem_schedTail (Or.inr (Or.inl rfl))
  have hparen := c.not_mem_schedTail (Or.inr (Or.inr rfl))
  have hline : newline ∉ c.comm ++ str " (" ++ c.schedTail := by
    have hopen : newline ∉ str " (" := by decide
    simp [c.clean.1, hopen, hnl]
  have hlines : (Text.lines newline c.sched).head? =
      some (c.comm ++ str " (" ++ c.schedTail ++ [newline]) := by
    rw [sched, Text.lines_append_of_not_mem hline, List.head?_cons]
  have hsplit : c.comm ++ str " (" ++ c.schedTail ++ [newline] =
      (c.comm ++ [space]) ++ paren :: (c.schedTail ++ [newline]) := by
    have hopen : str " (" = [space, paren] := by decide
    rw [hopen]
    simp
  have hclean : nul ∉ (c.comm ++ [space]) ++ (c.schedTail ++ [newline]) := by
    have hspace : nul ≠ space := by decide
    have hnewline : nul ≠ newline := by decide
    simp [c.clean.2, hnul, hspace, hnewline]
  have hlast : paren ∉ c.schedTail ++ [newline] := by
    have hnewline : paren ≠ newline := by decide
    simp [hparen, hnewline]
  have hrest : ∀ b ∈ (str ", #threads: " ++ decimal c.threads ++ str ")" ++ [newline]).head?,
      ¬ IsDigit b := by
    intro b hb
    obtain rfl : 44 = b := Option.some.inj hb
    exact not_digit (by simp)
  have hhost : (decimal c.host : GoString) = itoa c.host :=
    (itoa_of_nonneg (Int.natCast_nonneg _)).symm
  have hatoi : CString.atoi (c.schedTail ++ [newline]) = c.host := by
    have htail : c.schedTail ++ [newline] =
        itoa c.host ++ (str ", #threads: " ++ decimal c.threads ++ str ")" ++ [newline]) := by
      rw [schedTail, hhost]
      simp only [List.append_assoc]
    rw [htail]
    have hsmall := c.small.2.2
    exact atoi_itoa ⟨by omega, by omega⟩ hrest
  rw [schedGetHostPid, hlines, hsplit]
  dsimp only
  rw [strrchr_append (by decide) hclean hlast]
  exact hatoi

end Contained

/-- The `/proc` of a container: its processes among entries that are not processes, no two with
one number on the host. -/
structure ContainerProc where
  sameNs : Bool
  entries : List (ProcEntry ⊕ Contained)
  others : ∀ e, Sum.inl e ∈ entries → ∀ b ∈ e.name.head?, ¬ (49 ≤ b ∧ b ≤ 57)
  distinct : ∀ c d, Sum.inr c ∈ entries → Sum.inr d ∈ entries → c.host = d.host →
    c.nspid = d.nspid

def ContainerProc.world (k : ContainerProc) : NamespaceWorld where
  sameNs := k.sameNs
  entries := k.entries.map (Sum.elim id Contained.entry)

/-- The process has the number `n` for itself: in its own namespace that on the host. -/
def ContainerProc.Numbers (k : ContainerProc) (pid : ℤ) (n : ℤ) : Prop :=
  if k.sameNs then n = pid
  else ∃ c, Sum.inr c ∈ k.entries ∧ (c.host : ℤ) = pid ∧ n = c.nspid

theorem head_decimal {n : ℕ} (hn : 0 < n) : ∃ b ∈ (decimal n).head?, 49 ≤ b ∧ b ≤ 57 := by
  induction n using decimal_induction with
  | single d hd =>
    rw [decimal_of_lt hd]
    refine ⟨digitByte d, rfl, ?_⟩
    have hall : ∀ d ∈ List.range 10, 0 < d → 49 ≤ digitByte d ∧ digitByte d ≤ 57 := by decide
    exact hall d (List.mem_range.mpr hd) hn
  | snoc m d hm hd ih =>
    obtain ⟨b, hb, hrange⟩ := ih hm
    rw [decimal_snoc hm hd]
    exact ⟨b, List.mem_head?_append_of_mem_head? hb, hrange⟩

/-- An entry is taken for the process exactly if it is one with that number on the host. -/
theorem isMatch_iff {k : ContainerProc} {pid : ℤ} {e : ProcEntry ⊕ Contained}
    (he : e ∈ k.entries) :
    isMatch pid (Sum.elim id Contained.entry e) = true ↔
      ∃ c, e = Sum.inr c ∧ (c.host : ℤ) = pid := by
  rw [isMatch, Bool.and_eq_true, beq_iff_eq, Option.any_eq_true]
  constructor
  · rintro ⟨⟨b, hb, hrange⟩, hpid⟩
    rw [Bool.and_eq_true, decide_eq_true_eq, decide_eq_true_eq] at hrange
    cases e with
    | inl e => exact absurd hrange (k.others e he b hb)
    | inr c =>
      refine ⟨c, rfl, ?_⟩
      rw [← hpid]
      exact c.schedGetHostPid_sched.symm
  · rintro ⟨c, rfl, hpid⟩
    obtain ⟨b, hb, hrange⟩ := head_decimal c.small.1
    refine ⟨⟨b, hb, by simpa using hrange⟩, ?_⟩
    exact c.schedGetHostPid_sched.trans hpid

theorem altLookupNspid_of_numbers {k : ContainerProc} {pid n : ℤ} (h : k.Numbers pid n) :
    altLookupNspid k.world pid = n := by
  unfold ContainerProc.Numbers at h
  unfold altLookupNspid ContainerProc.world
  split at h
  · rename_i hsame
    rw [if_pos hsame]
    exact h.symm
  · rename_i hsame
    obtain ⟨c, hc, hhost, rfl⟩ := h
    rw [if_neg hsame, List.find?_map]
    cases hfind : k.entries.find? (isMatch pid ∘ Sum.elim id Contained.entry) with
    | none =>
      have hno := List.find?_eq_none.mp hfind _ hc
      exact absurd ((isMatch_iff hc).mpr ⟨c, rfl, hhost⟩) hno
    | some e =>
      have he := List.mem_of_find?_eq_some hfind
      have hmatch : isMatch pid (Sum.elim id Contained.entry e) = true :=
        List.find?_some (p := isMatch pid ∘ Sum.elim id Contained.entry) hfind
      obtain ⟨d, rfl, hd⟩ := (isMatch_iff he).mp hmatch
      have hsmall := d.small.2.1
      have hitoa : decimal d.nspid = itoa d.nspid ++ [] := by
        rw [List.append_nil, itoa_of_nonneg (Int.natCast_nonneg _)]
        rfl
      have hatoi : CString.atoi (decimal d.nspid) = d.nspid := by
        rw [hitoa]
        exact atoi_itoa ⟨by omega, by omega⟩ nofun
      have hone : d.nspid = c.nspid := k.distinct d c he hc (by omega)
      rw [← hone]
      exact hatoi

/-- The status file of a process is read as the kernel wrote it, whatever the variables were and
whatever else is in it. -/
theorem getProcessInfo_text (st : StatusFile) (w : NamespaceWorld) (pid : ℤ) (init : ProcessInfo) :
    getProcessInfo (some st.text) w pid init =
      some (some ⟨st.uid.effective, st.gid.effective, st.nspid w pid⟩) := by
  obtain ⟨huid, hgid, hnspid, hfound⟩ := @StatusFile.foldl_learn st st.lines ⟨init, false⟩
  rw [StatusFile.any_of_has st.hasUid (StatusFile.name_prefix_idLine _ _), if_pos rfl] at huid
  rw [StatusFile.any_of_has st.hasGid (StatusFile.name_prefix_idLine _ _), if_pos rfl] at hgid
  rw [getProcessInfo, StatusFile.foldlM_readLine, Option.map_some]
  have hpids := st.hasPids
  unfold StatusFile.nspid
  cases hnone : st.nspids with
  | none =>
    rw [hnone] at hpids
    have hany : st.lines.any (hasPrefix · (str "NStgid:")) = false := by
      rw [List.any_eq_false]
      exact fun l hl h => hpids l hl ((hasPrefix_iff _ _).mp h)
    rw [hany, Bool.false_or] at hfound
    rw [hfound, if_neg Bool.false_ne_true]
    dsimp only
    rw [huid, hgid]
  | some n =>
    rw [hnone] at hpids hnspid
    rw [StatusFile.any_of_has hpids (StatusFile.name_prefix_line n)] at hfound hnspid
    rw [if_pos rfl, Option.map_some, Option.getD_some] at hnspid
    rw [hfound, Bool.true_or, if_pos rfl]
    dsimp only
    rw [← huid, ← hgid, ← hnspid]

/-- The number that the process has for itself. -/
def StatusFile.Numbers (st : StatusFile) (k : ContainerProc) (pid n : ℤ) : Prop :=
  match st.nspids with
  | some ns => n = ns.inner
  | none => k.Numbers pid n

/-- What is found out of a process are its effective user and group and its number for itself, on
kernels with a line for that and on others. -/
theorem getProcessInfo_exact (st : StatusFile) (k : ContainerProc) {pid n : ℤ}
    (h : st.Numbers k pid n) (init : ProcessInfo) :
    getProcessInfo (some st.text) k.world pid init =
      some (some ⟨st.uid.effective, st.gid.effective, n⟩) := by
  rw [getProcessInfo_text]
  have hn : st.nspid k.world pid = n := by
    unfold StatusFile.Numbers at h
    unfold StatusFile.nspid
    split at h
    · exact h.symm
    · exact altLookupNspid_of_numbers h
  rw [hn]

end YcAgent.Attach
