import YcAgent.Base.Decimal
import YcAgent.Base.KeyValue
import YcAgent.Capture.Post

/-!
# The file of the meta data

One line for each thing that the server is told about the host and the capture. The outputs of
commands are put on one line each; all other texts go into the file as they are.
-/
namespace YcAgent.Agent.MetaInfo

open Go YcAgent.Capture KeyValue

/-- `fmt.Sprintf` with verbs of one letter, the arguments by their texts. -/
def sprintf : GoString → List GoString → GoString
  | [], _ => []
  | [b], _ => [b]
  | b :: verb :: rest, args =>
    if b = 37 then
      match args with
      | [] => sprintf rest []
      | arg :: args => arg ++ sprintf rest args
    else b :: sprintf (verb :: rest) args

def metaInfoTemplate : GoString :=
  str ("hostName=%s\nprocessId=%d\nappName=%s\nwhoami=%s\ntimestamp=%s\ntimezone=%s\n" ++
    "timezoneId=%s\ncpuCount=%d\njavaVersion=%s\nosVersion=%s\ntags=%s")

/-- The time of a capture, with the names of its zone. -/
structure Moment where
  timestamp : GoString
  timezone : GoString
  timezoneId : GoString
  /-- The layout has digits, dashes and a `T`. -/
  layout : ∀ b ∈ timestamp, IsDigit b ∨ b = 45 ∨ b = 84

/-- How the steps end, and what the host is. -/
structure World where
  create : Option GoString
  hostname : Except GoString GoString
  javaVersion : Except GoString GoString
  osVersion : Except GoString GoString
  currentUser : Except GoString GoString
  now : Moment
  cpuCount : ℕ
  write : Option GoString
  post : PostWorld

/-- A nil error is printed as well. -/
def errText (err : Option GoString) : GoString := err.getD (str "<nil>")

/-- A value with the errors so far. -/
def gather (what : GoString) (r : Except GoString GoString) (err : Option GoString) :
    GoString × Option GoString :=
  match r with
  | .ok value => (value, err)
  | .error e => ([], some (what ++ str " err: " ++ e ++ str ", previous err: " ++ errText err))

def oneLine (output : GoString) : GoString :=
  replaceAll (replaceAll output (str "\r\n") (str ", ")) [newline] (str ", ")

structure Outcome where
  /-- What was written, where all of it was. -/
  file : Option GoString
  msg : GoString
  ok : Bool
  err : Option GoString

def writeMetaInfo (o : Options) (w : World) (processId : ℤ) (appName endpoint tags : GoString) :
    Outcome :=
  match w.create with
  | some e => ⟨none, [], false, some e⟩
  | none =>
    let (hostname, err) := match w.hostname with
      | .ok name => (name, none)
      | .error e => ([], some (str "hostname err: " ++ e))
    let (jv, err) := gather (str "javaVersion") (w.javaVersion.map oneLine) err
    let (ov, err) := gather (str "osVersion") (w.osVersion.map oneLine) err
    let (un, err) := gather (str "username") w.currentUser err
    let content := sprintf metaInfoTemplate [hostname, itoa processId, appName, un, w.now.timestamp,
      w.now.timezone, w.now.timezoneId, itoa w.cpuCount, jv, ov, tags]
    match w.write with
    | some e =>
      ⟨none, [], false,
        some (str "write result err: " ++ e ++ str ", previous err: " ++ errText err)⟩
    | none =>
      let answer := postData o w.post endpoint (str "meta") (some ⟨str "meta-info.txt", content⟩)
      ⟨some content, answer.msg, answer.ok, err⟩

/-! ## What the file says -/

/-- The value, or nothing where it could not be found out. -/
def found (r : Except GoString GoString) : GoString := r.toOption.getD []

/-- What the server is to be told. -/
def fields (w : World) (processId : ℤ) (appName tags : GoString) : List (GoString × GoString) :=
  [(str "hostName", found w.hostname), (str "processId", itoa processId),
    (str "appName", appName), (str "whoami", found w.currentUser),
    (str "timestamp", w.now.timestamp), (str "timezone", w.now.timezone),
    (str "timezoneId", w.now.timezoneId), (str "cpuCount", itoa w.cpuCount),
    (str "javaVersion", found (w.javaVersion.map oneLine)),
    (str "osVersion", found (w.osVersion.map oneLine)), (str "tags", tags)]

theorem gather_fst (what : GoString) (r : Except GoString GoString) (err : Option GoString) :
    (gather what r err).1 = found r := by
  cases r <;> rfl

theorem sprintf_cons {b : Byte} (hb : b ≠ 37) {t : GoString} (ht : t ≠ []) (args : List GoString) :
    sprintf (b :: t) args = b :: sprintf t args := by
  obtain ⟨verb, rest, rfl⟩ := List.exists_cons_of_ne_nil ht
  simp [sprintf, hb]

theorem sprintf_append {s : GoString} (hs : 37 ∉ s) (verb : Byte) (rest arg : GoString)
    (args : List GoString) :
    sprintf (s ++ 37 :: verb :: rest) (arg :: args) = s ++ (arg ++ sprintf rest args) := by
  induction s with
  | nil => rfl
  | cons b s ih =>
    obtain ⟨hb, hs⟩ := not_or.mp (List.mem_cons.not.mp hs)
    have hne : s ++ 37 :: verb :: rest ≠ [] := List.append_ne_nil_of_right_ne_nil s nofun
    rw [List.cons_append, sprintf_cons (Ne.symm hb) hne, ih hs]
    rfl

/-- The names of the fields with the verbs of their values. -/
def verbs : List (GoString × Byte) :=
  [(str "hostName", 115), (str "processId", 100), (str "appName", 115), (str "whoami", 115),
    (str "timestamp", 115), (str "timezone", 115), (str "timezoneId", 115), (str "cpuCount", 100),
    (str "javaVersion", 115), (str "osVersion", 115), (str "tags", 115)]

theorem metaInfoTemplate_eq :
    metaInfoTemplate = render (verbs.map fun v => (v.1, [37, v.2])) := by
  decide

/-- A template of lines of verbs is filled in to lines of values. -/
theorem sprintf_render {vs : List (GoString × Byte)} {args : List GoString}
    (hpercent : ∀ v ∈ vs, 37 ∉ v.1) (hlen : vs.length = args.length) :
    sprintf (render (vs.map fun v => (v.1, [37, v.2]))) args =
      render ((vs.map Prod.fst).zip args) := by
  induction vs generalizing args with
  | nil => rfl
  | cons v vs ih =>
    obtain ⟨hv, hvs⟩ := List.forall_mem_cons.mp hpercent
    have hkey : (37 : Byte) ∉ v.1 ++ [Url.equals] := by
      simp [hv, Url.equals]
    cases args with
    | nil => cases hlen
    | cons arg args =>
      have hargs : vs.length = args.length := Nat.succ.inj hlen
      have hline : ∀ rest, sprintf (line (v.1, [37, v.2]) ++ rest) (arg :: args) =
          line (v.1, arg) ++ sprintf rest args := by
        intro rest
        have happend := sprintf_append hkey v.2 rest arg args
        simp only [line, List.append_assoc, List.cons_append] at happend ⊢
        exact happend
      cases vs with
      | nil =>
        obtain rfl := List.length_eq_zero_iff.mp hargs.symm
        have hlast := hline []
        rw [List.append_nil] at hlast
        rw [List.map_singleton, List.map_singleton, List.zip_cons_cons, List.zip_nil_left,
          render_singleton, render_singleton, hlast]
        exact List.append_nil _
      | cons v' vs =>
        obtain ⟨arg', args, rfl⟩ := List.exists_cons_of_length_eq_add_one hargs.symm
        have hrest := ih hvs hargs
        have hnewline : newline ≠ 37 := by decide
        rw [List.map_cons, List.map_cons] at hrest ⊢
        rw [List.map_cons, render_cons_cons, hline,
          sprintf_cons hnewline (render_ne_nil (List.cons_ne_nil _ _)), hrest]
        exact (render_cons_cons _ _ _).symm

theorem newline_not_mem_oneLine (output : GoString) : newline ∉ oneLine output :=
  not_mem_replaceAll_single (by decide) _

theorem newline_not_mem_timestamp (m : Moment) : newline ∉ m.timestamp := fun h =>
  absurd (m.layout _ h) (by decide)

theorem newline_not_mem_itoa (n : ℤ) : newline ∉ itoa n := not_mem_itoa (by decide) (by decide) n

theorem newline_not_mem_found_oneLine (r : Except GoString GoString) :
    newline ∉ found (r.map oneLine) := by
  cases r with
  | error e => exact List.not_mem_nil
  | ok output => exact newline_not_mem_oneLine output

/-- The texts that go into the file as they are. -/
def texts (w : World) (appName tags : GoString) : List GoString :=
  [found w.hostname, appName, found w.currentUser, w.now.timezone, w.now.timezoneId, tags]

theorem fields_clean_iff (w : World) (processId : ℤ) (appName tags : GoString) :
    (∀ p ∈ fields w processId appName tags, newline ∉ p.2) ↔
      ∀ text ∈ texts w appName tags, newline ∉ text := by
  simp [fields, texts, newline_not_mem_itoa, newline_not_mem_timestamp,
    newline_not_mem_found_oneLine]

theorem sprintf_metaInfoTemplate {args : List GoString} (h : verbs.length = args.length) :
    sprintf metaInfoTemplate args = render ((verbs.map Prod.fst).zip args) := by
  rw [metaInfoTemplate_eq, sprintf_render (by decide) h]

theorem file_writeMetaInfo (o : Options) (w : World) (processId : ℤ)
    (appName endpoint tags : GoString) :
    (writeMetaInfo o w processId appName endpoint tags).file =
      if w.create = none ∧ w.write = none then some (render (fields w processId appName tags))
      else none := by
  cases hcreate : w.create with
  | some e => simp [writeMetaInfo, hcreate]
  | none =>
    cases hwrite : w.write with
    | some e => simp [writeMetaInfo, hcreate, hwrite]
    | none =>
      rw [if_pos ⟨rfl, rfl⟩]
      simp only [writeMetaInfo, hcreate, hwrite, gather_fst]
      refine congrArg some ((sprintf_metaInfoTemplate rfl).trans ?_)
      cases hhost : w.hostname with
      | ok name =>
        rw [fields, hhost]
        rfl
      | error e =>
        rw [fields, hhost]
        rfl

/-- The server reads what it is to be told exactly where the file is written and no text that goes
in as it is has a newline; the outputs of the commands never break a line. -/
theorem file_read_iff (o : Options) (w : World) (processId : ℤ) (appName endpoint tags : GoString) :
    (writeMetaInfo o w processId appName endpoint tags).file.map read =
        some (fields w processId appName tags) ↔
      w.create = none ∧ w.write = none ∧ ∀ text ∈ texts w appName tags, newline ∉ text := by
  have hne : fields w processId appName tags ≠ [] := List.cons_ne_nil _ _
  have hkeys : ∀ p ∈ fields w processId appName tags, IsKey p.1 := by
    have hnames : ∀ key ∈ verbs.map Prod.fst, IsKey key := by decide
    exact fun p hp => hnames p.1 (List.mem_map_of_mem hp)
  rw [file_writeMetaInfo, ← fields_clean_iff w processId, ← read_render_iff hne hkeys]
  split
  · rename_i hwritten
    simp [hwritten]
  · rename_i hnot
    refine iff_of_false nofun fun h => hnot ⟨h.1, h.2.1⟩

/-- A capture at noon, on a host whose user is not known. -/
def noon : Moment where
  timestamp := str "2024-03-01T12-00-00"
  timezone := str "CET"
  timezoneId := str "Europe/Berlin"
  layout := by decide

def host : World where
  create := none
  hostname := .ok (str "app1")
  javaVersion := .ok (str "openjdk 21\r\nServer VM\n")
  osVersion := .ok (str "Linux app1 6.1\n")
  currentUser := .error (str "unknown userid 7")
  now := noon
  cpuCount := 8
  write := none
  post := ⟨none, none, none, none, none, 200, .ok []⟩

/-- Tags may have an equals sign, and the error is not in the file. -/
theorem file_read_host :
    (writeMetaInfo defaultOptions host 7 (str "shop") (str "/yc") (str "env=prod")).file.map read =
        some (fields host 7 (str "shop") (str "env=prod")) ∧
      (str "javaVersion", str "openjdk 21, Server VM, ") ∈
        fields host 7 (str "shop") (str "env=prod") ∧
      (str "whoami", []) ∈ fields host 7 (str "shop") (str "env=prod") := by
  have hread := file_read_iff defaultOptions host 7 (str "shop") (str "/yc") (str "env=prod")
  exact ⟨hread.mpr ⟨rfl, rfl, by decide⟩, by decide, by decide⟩

end YcAgent.Agent.MetaInfo
