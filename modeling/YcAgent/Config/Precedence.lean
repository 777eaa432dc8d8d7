import YcAgent.Config.ParseFlags

/-!
# Command line, config file and defaults

Field by field, one `copyFlagsValue` either leaves an option alone or gives it
the value of its flag, and drops the flag when the two already agree. Two copies
around the decoding of the file give every option one of three values.
-/
namespace YcAgent

open Go

/-- What one copy does to an option and its flag. -/
def Copied {k : Kind} (v : k.Val) (s : Option (Flag k)) (v' : k.Val) (s' : Option (Flag k)) :
    Prop :=
  match s with
  | none => v' = v ∧ s' = none
  | some flag =>
    flag.read = .ok v' ∧ s' = if flag.isPair = false ∧ v' = v then none else some flag

/-- A copy never fails on flags that all stand for a value. -/
def Readable (src : Flags) : Prop := ∀ f flag, src f = some flag → ∃ x, flag.read = .ok x

theorem copyField_spec (dst : Options) {src : Flags} (hr : Readable src) (f : Field) :
    ∃ dst' src', copyField dst src f = .ok (dst', src') ∧
      Copied (dst f) (src f) (dst' f) (src' f) ∧
      ∀ g ≠ f, dst' g = dst g ∧ src' g = src g := by
  unfold copyField
  cases hs : src f with
  | none => exact ⟨dst, src, rfl, ⟨rfl, hs⟩, fun _ _ => ⟨rfl, rfl⟩⟩
  | some flag =>
    obtain ⟨x, hx⟩ := hr f flag hs
    have hbind : ∀ {β : Type} (k : f.kind.Val → Except Failure β), (flag.read >>= k) = k x := by
      intro β k
      rw [hx]
      rfl
    simp only [hbind]
    by_cases hp : flag.isPair = true
    · rw [if_pos hp]
      refine ⟨_, _, rfl, ⟨by rw [Function.update_self, hx], by simp [hs, hp]⟩, fun g hg => ?_⟩
      exact ⟨Function.update_of_ne hg _ _, rfl⟩
    · rw [if_neg hp]
      by_cases he : x = dst f
      · rw [if_pos he]
        refine ⟨_, _, rfl, ⟨by rw [hx, he], by simp [hp]⟩, fun g hg => ?_⟩
        exact ⟨rfl, Function.update_of_ne hg _ _⟩
      · rw [if_neg he]
        refine ⟨_, _, rfl, ⟨by rw [Function.update_self, hx], ?_⟩, fun g hg => ?_⟩
        · rw [Function.update_self, if_neg (fun h => he h.2), hs]
        · exact ⟨Function.update_of_ne hg _ _, rfl⟩

theorem readable_of_copied (dst dst' : Options) {src src' : Flags} (hr : Readable src)
    (h : ∀ f, Copied (dst f) (src f) (dst' f) (src' f) ∨ src' f = src f) : Readable src' := by
  intro f flag hf
  rcases h f with hc | he
  · unfold Copied at hc
    split at hc
    · rw [hc.2] at hf
      cases hf
    · rename_i flag' hs
      have hsome := hc.2.symm.trans hf
      split at hsome
      · cases hsome
      · exact hr f flag (by rw [hs, hsome])
  · exact hr f flag (by rw [← he, hf])

theorem copyFields_spec (fields : List Field) :
    ∀ (dst : Options) {src : Flags}, fields.Nodup → Readable src →
      ∃ dst' src', fields.foldlM (fun (dst, src) f => copyField dst src f) (dst, src) =
          .ok (dst', src') ∧
        (∀ f ∈ fields, Copied (dst f) (src f) (dst' f) (src' f)) ∧
        ∀ f ∉ fields, dst' f = dst f ∧ src' f = src f := by
  induction fields with
  | nil => intro dst src _ _; exact ⟨dst, src, rfl, by simp, fun _ _ => ⟨rfl, rfl⟩⟩
  | cons f fields ih =>
    intro dst src hnd hr
    obtain ⟨hf, hnd⟩ := List.nodup_cons.mp hnd
    obtain ⟨d, s, hstep, hcopied, hother⟩ := copyField_spec dst hr f
    have hrs : Readable s := by
      refine readable_of_copied dst d hr fun g => ?_
      by_cases hg : g = f
      · subst hg
        exact Or.inl hcopied
      · exact Or.inr (hother g hg).2
    obtain ⟨d', s', hrest, hin, hout⟩ := ih d hnd hrs
    refine ⟨d', s', ?_, ?_, ?_⟩
    · show (copyField dst src f >>= fun p => _) = _
      rw [hstep]
      exact hrest
    · intro g hg
      by_cases hgf : g = f
      · subst hgf
        rw [(hout g hf).1, (hout g hf).2]
        exact hcopied
      · have hmem : g ∈ fields := (List.mem_cons.mp hg).resolve_left hgf
        have h := hin g hmem
        rwa [(hother g hgf).1, (hother g hgf).2] at h
    · intro g hg
      obtain ⟨hgf, hgs⟩ := not_or.mp (fun h => hg (List.mem_cons.mpr h))
      rw [(hout g hgs).1, (hout g hgs).2]
      exact hother g hgf

/-- The copy of all options, seen from one of them. -/
theorem copyFlagsValue_spec (dst : Options) {src : Flags} (hr : Readable src) :
    ∃ dst' src', copyFlagsValue dst src = .ok (dst', src') ∧ Readable src' ∧
      ∀ f, Copied (dst f) (src f) (dst' f) (src' f) := by
  obtain ⟨dst', src', h, hin, -⟩ := copyFields_spec Field.all dst Field.nodup_all hr
  have hall : ∀ f, Copied (dst f) (src f) (dst' f) (src' f) := fun f => hin f f.mem_all
  exact ⟨dst', src', h, readable_of_copied dst dst' hr fun f => Or.inl (hall f), hall⟩

/-- The value an option ends up with: a flag that agrees with the default leaves
the option to the file, the commands pair never does. -/
def resolved {k : Kind} (default : k.Val) (flag : Option (Flag k)) (doc : Option k.Val) : k.Val :=
  match flag with
  | none => doc.getD default
  | some flag =>
    match flag.read with
    | .error _ => default
    | .ok x => if flag.isPair = false ∧ x = default then doc.getD default else x

theorem copied_twice {k : Kind} {default v v' : k.Val} {s s' s'' : Option (Flag k)}
    {doc : Option k.Val} (h1 : Copied default s v s') (h2 : Copied (doc.getD v) s' v' s'') :
    v' = resolved default s doc := by
  cases s with
  | none =>
    obtain ⟨hv, rfl⟩ := h1
    rw [h2.1, hv]
    rfl
  | some flag =>
    obtain ⟨hread, hs⟩ := h1
    simp only [resolved, hread]
    by_cases hd : flag.isPair = false ∧ v = default
    · rw [if_pos hd] at hs ⊢
      subst hs
      rw [h2.1, hd.2]
    · rw [if_neg hd] at hs ⊢
      subst hs
      have hv : Except.ok v = (Except.ok v' : Except Failure k.Val) := hread.symm.trans h2.1
      exact (Except.ok.inj hv).symm

/-- `ParseFlags` cuts the slash at the end of the server address after all else. -/
def settled : (f : Field) → f.kind.Val → f.kind.Val
  | .server, s => trimServer s
  | _, v => v

theorem settled_of_ne {f : Field} (h : f ≠ .server) (v : f.kind.Val) : settled f v = v := by
  cases f <;> first | rfl | exact absurd rfl h

theorem finish_options (g : Config) (f : Field) :
    (finish g).options f = settled f (g.options f) := by
  by_cases h : f = .server
  · subst h
    exact Function.update_self Field.server (trimServer (g.options .server)) g.options
  · rw [settled_of_ne h]
    exact Function.update_of_ne h _ _

theorem trimServer_eq_nil (s : GoString) : trimServer s = [] ↔ s = [] := by
  unfold trimServer
  split
  · rename_i hlen
    rw [List.take_eq_nil_iff]
    exact ⟨fun h => h.resolve_left (by omega), Or.inr⟩
  · exact Iff.rfl

theorem settled_default_iff (f : Field) (v : f.kind.Val) :
    settled f v = defaultOptions f ↔ v = defaultOptions f := by
  by_cases h : f = .server
  · subst h
    exact trimServer_eq_nil v
  · rw [settled_of_ne h]

def Mentions (args : List (Target × GoString)) (f : Field) : Prop := ∃ a ∈ args, a.1.field = f

/-- The pair of command slices is a flag of `Commands` and of no other option. -/
def PairsMatch (flags : Flags) : Prop :=
  ∀ f flag, flags f = some flag → (flag.isPair = true ↔ f = .commands)

section CommandLine

variable {parse : (k : Kind) → GoString → Option k.Val}

theorem setFlag_spec {flags flags' : Flags} {a : Target × GoString}
    (h : setFlag parse flags a = .ok flags') :
    ∃ old new : Flag a.1.field.kind, flags a.1.field = some old ∧
      flags' = Function.update flags a.1.field (some new) ∧ new.isPair = old.isPair := by
  unfold setFlag at h
  split at h
  · cases h
  · rename_i old hold
    have hadd : ∀ {k : Kind} (flag : Flag k) (s : GoString),
        (flag.addUrlParams s).isPair = flag.isPair ∧ (flag.addCmd s).isPair = flag.isPair := by
      intro k flag s
      cases flag <;> exact ⟨rfl, rfl⟩
    have hset : ∀ {k : Kind} (flag new : Flag k) (s : GoString),
        flag.set parse s = .ok new → new.isPair = flag.isPair := by
      intro k flag new s hs
      unfold Flag.set at hs
      split at hs <;> first | (cases hs; rfl) | (split at hs <;> cases hs <;> rfl) | cases hs
    obtain ⟨target, s⟩ := a
    cases target with
    | option f =>
      simp only at h
      cases hs : Flag.set parse old s with
      | error e => rw [hs] at h; cases h
      | ok new =>
        rw [hs] at h
        exact ⟨old, new, hold, (Except.ok.inj h).symm, hset old new s hs⟩
    | urlParams => exact ⟨old, _, hold, (Except.ok.inj h).symm, (hadd old s).1⟩
    | cmd => exact ⟨old, _, hold, (Except.ok.inj h).symm, (hadd old s).2⟩

/-- What the words of the command line can change. -/
theorem parseArgs_spec {flags src : Flags} {args : List (Target × GoString)}
    (hpairs : PairsMatch flags) (h : parseArgs parse flags args = .ok src) :
    PairsMatch src ∧ (∀ f, ¬ Mentions args f → src f = flags f) ∧
      ∀ f, src f = none ↔ flags f = none := by
  induction args generalizing flags with
  | nil =>
    obtain rfl : flags = src := Except.ok.inj h
    exact ⟨hpairs, fun _ _ => rfl, fun _ => Iff.rfl⟩
  | cons a args ih =>
    unfold parseArgs at h
    rw [List.foldlM_cons] at h
    cases hs : setFlag parse flags a with
    | error e => rw [hs] at h; cases h
    | ok next =>
      rw [hs] at h
      obtain ⟨old, new, hold, rfl, hpair⟩ := setFlag_spec hs
      have hnext : PairsMatch (Function.update flags a.1.field (some new)) := by
        intro f flag hf
        by_cases hfa : f = a.1.field
        · subst hfa
          rw [Function.update_self] at hf
          rw [← Option.some.inj hf, hpair]
          exact hpairs _ old hold
        · rw [Function.update_of_ne hfa] at hf
          exact hpairs f flag hf
      obtain ⟨hp, hunmentioned, hnone⟩ := ih hnext h
      refine ⟨hp, fun f hf => ?_, fun f => ?_⟩
      · have hfa : f ≠ a.1.field := fun he => hf ⟨a, List.mem_cons_self, he.symm⟩
        have hrest : ¬ Mentions args f := fun ⟨b, hb, he⟩ => hf ⟨b, List.mem_cons_of_mem _ hb, he⟩
        rw [hunmentioned f hrest, Function.update_of_ne hfa]
      · rw [hnone f]
        by_cases hfa : f = a.1.field
        · subst hfa
          rw [Function.update_self, hold]
          simp
        · rw [Function.update_of_ne hfa]

end CommandLine

theorem read_registerFlags (f : Field) (flag : Flag f.kind)
    (h : registerFlags defaultOptions f = some flag) : flag.read = .ok (defaultOptions f) := by
  cases f <;> first | (cases h; rfl) | cases h

theorem pairsMatch_registerFlags : PairsMatch (registerFlags defaultOptions) := by
  intro f flag h
  cases f <;> first | (cases h; decide) | cases h

/-- The decoder reads `file` as the keys of `doc`, whatever it decodes into.
A decoded map is merged into the one it finds. -/
def Decodes (env : Env) (file : GoString) (doc : (f : Field) → Option f.kind.Val) : Prop :=
  ∀ g, ∃ g', env.decode file g = .ok g' ∧
    ∀ f, (f = .healthChecks → g.options f = f.kind.zero) →
      g'.options f = (doc f).getD (g.options f)

/-- The words `args` leave the flags `src` and name a config file that holds `doc`. -/
structure Loads (env : Env) (args : List (Target × GoString)) (src : Flags)
    (doc : (f : Field) → Option f.kind.Val) : Prop where
  parsed : parseArgs env.parse (registerFlags defaultOptions) args = .ok src
  readable : Readable src
  file : ∃ path file, path ≠ [] ∧ src .configPath = some (.value path) ∧
    env.open_ path = .ok file ∧ Decodes env file doc

/-- The command line gives option `f` the value `x`. -/
def Given (args : List (Target × GoString)) (src : Flags) (f : Field) (x : f.kind.Val) : Prop :=
  Mentions args f ∧ ∃ flag, src f = some flag ∧ flag.read = .ok x

section ConfigFile

variable {env : Env} {args : List (Target × GoString)} {src : Flags}
  {doc : (f : Field) → Option f.kind.Val}

theorem parseFlags_resolved (h : Loads env args src doc) :
    ∃ g', parseFlags env defaultConfig (some args) = .ok g' ∧
      ∀ f, g'.options f = settled f (resolved (defaultOptions f) (src f) (doc f)) := by
  obtain ⟨path, file, hpath, hflag, hopen, hdecodes⟩ := h.file
  obtain ⟨-, -, hnone⟩ := parseArgs_spec pairsMatch_registerFlags h.parsed
  obtain ⟨o1, s1, hcopy1, hr1, hspec1⟩ := copyFlagsValue_spec defaultOptions h.readable
  obtain ⟨g, hdecode, hdoc⟩ := hdecodes { defaultConfig with options := o1 }
  obtain ⟨o2, s2, hcopy2, -, hspec2⟩ := copyFlagsValue_spec g.options hr1
  have hconfig : o1 .configPath = path := by
    have hc := hspec1 .configPath
    rw [hflag] at hc
    exact (Except.ok.inj hc.1).symm
  have hhealth : o1 .healthChecks = defaultOptions .healthChecks := by
    have hc := hspec1 .healthChecks
    rw [(hnone .healthChecks).mpr rfl] at hc
    exact hc.1
  refine ⟨finish { g with options := o2 }, ?_, fun f => ?_⟩
  · unfold parseFlags
    simp only [h.parsed, defaultConfig, hcopy1, hconfig, hpath, hopen, if_false, bind,
      Except.bind]
    rw [show env.decode file { version := [], timezoneID := [], options := o1 } = _ from hdecode]
    simp only [hcopy2]
    rfl
  · rw [finish_options]
    have hcopied := hspec2 f
    rw [hdoc f fun hf => by subst hf; exact hhealth] at hcopied
    exact congrArg (settled f) (copied_twice (hspec1 f) hcopied)

/-- The flag is not a commands pair and agrees with the default, or there is none. -/
def AgreesWith {k : Kind} (flag : Option (Flag k)) (default : k.Val) : Prop :=
  ∀ s, flag = some s → s.read = .ok default ∧ s.isPair = false

theorem resolved_of_agrees {k : Kind} {default : k.Val} {flag : Option (Flag k)}
    (hflag : AgreesWith flag default) (d : Option k.Val) :
    resolved default flag d = d.getD default := by
  cases flag with
  | none => rfl
  | some s =>
    obtain ⟨hread, hpair⟩ := hflag s rfl
    simp only [resolved, hread, hpair, true_and, if_true]

theorem settled_resolved_eq_default_iff {f : Field} {flag : Option (Flag f.kind)}
    (hflag : AgreesWith flag (defaultOptions f)) (d : Option f.kind.Val) :
    settled f (resolved (defaultOptions f) flag d) = settled f (defaultOptions f) ↔
      d = none ∨ d = some (defaultOptions f) := by
  have hdefault := (settled_default_iff f (defaultOptions f)).mpr rfl
  rw [resolved_of_agrees hflag, hdefault, settled_default_iff]
  cases d <;> simp

theorem agreesWith_of_read {f : Field} {x : f.kind.Val} {flag : Flag f.kind}
    (hpairs : PairsMatch src) (hf : f ≠ .commands) (hflag : src f = some flag)
    (hread : flag.read = .ok x) : AgreesWith (src f) x := by
  intro s hs
  obtain rfl : flag = s := Option.some.inj (hflag.symm.trans hs)
  exact ⟨hread, Bool.eq_false_iff.mpr fun hp => hf ((hpairs f flag hflag).mp hp)⟩

/-- An environment where `c.yaml` holds `text`, which the decoder reads as `doc`. -/
def sampleEnv (text : GoString) (doc : (f : Field) → Option f.kind.Val) : Env where
  parse
    | .string, s => some s
    | .bool, s => parseBoolLower s
    | _, _ => none
  workdir := str "/"
  open_ path := if path = str "c.yaml" then .ok text else .error (str "no such file or directory")
  decode file g :=
    if file = text then .ok { g with options := fun f => (doc f).getD (g.options f) }
    else .error (str "yaml: did not find expected node content")

/-- `-c c.yaml -d=true` over a file with `d: false`. -/
def keepFolderDoc : (f : Field) → Option f.kind.Val
  | .deferDelete => some false
  | _ => none

def keepFolderArgs : List (Target × GoString) :=
  [(.option .configPath, str "c.yaml"), (.option .deferDelete, str "true")]

def keepFolderFlags : Flags :=
  Function.update
    (Function.update (registerFlags defaultOptions) .configPath (some (.value (str "c.yaml"))))
    .deferDelete (some (.value true))

theorem loads_sampleEnv {text : GoString} (hdoc : Decodes (sampleEnv text doc) text doc)
    (hparsed : parseArgs (sampleEnv text doc).parse (registerFlags defaultOptions) args = .ok src)
    (hread : Readable src) (hpath : src .configPath = some (.value (str "c.yaml"))) :
    Loads (sampleEnv text doc) args src doc :=
  ⟨hparsed, hread, str "c.yaml", text, by decide, hpath, rfl, hdoc⟩

theorem decodes_sampleEnv (text : GoString) : Decodes (sampleEnv text doc) text doc :=
  fun _ => ⟨_, if_pos rfl, fun _ _ => rfl⟩

theorem loads_keepFolder : Loads (sampleEnv (str "d: false") keepFolderDoc) keepFolderArgs
    keepFolderFlags keepFolderDoc := by
  refine loads_sampleEnv (decodes_sampleEnv _) rfl (fun f flag h => ?_) rfl
  cases f <;> first | (cases h; exact ⟨_, rfl⟩) | cases h

theorem given_keepFolder : Given keepFolderArgs keepFolderFlags .deferDelete true :=
  ⟨⟨_, List.mem_cons_of_mem _ List.mem_cons_self, rfl⟩, .value true, rfl, rfl⟩

/-- `-c c.yaml` over a file with a list of commands. -/
def commandsDoc : (f : Field) → Option f.kind.Val
  | .commands => some [⟨str "dt=df", str "df -h"⟩]
  | _ => none

def configOnlyArgs : List (Target × GoString) := [(.option .configPath, str "c.yaml")]

def configOnlyFlags : Flags :=
  Function.update (registerFlags defaultOptions) .configPath (some (.value (str "c.yaml")))

def commandsText : GoString := str "cmds: [{urlParams: dt=df, cmd: df -h}]"

theorem loads_commands : Loads (sampleEnv commandsText commandsDoc) configOnlyArgs
    configOnlyFlags commandsDoc := by
  refine loads_sampleEnv (decodes_sampleEnv _) rfl (fun f flag h => ?_) rfl
  cases f <;> first | (cases h; exact ⟨_, rfl⟩) | cases h

end ConfigFile

end YcAgent
