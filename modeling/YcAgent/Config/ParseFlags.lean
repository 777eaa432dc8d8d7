import YcAgent.Config.Options
import Mathlib.Logic.Function.Basic

/-!
# Reading the command line and the config file

`ParseFlags` registers a flag for every option, parses the command line, copies
the flag values into the options, decodes the config file over them and copies
the flag values once more. `copyFlagsValue` drops a flag from its map when the
flag agrees with the option it finds, so the second copy only restores flags
that differed from the defaults.

The value parsers of package `flag` and the YAML decoder are parameters.
-/
namespace YcAgent

open Go

structure CommandsFlagSetPair where
  urlParamsSlice : List GoString
  cmdSlice : List GoString
  deriving DecidableEq

/-- What `registerFlags` keeps for an option of a kind. The string of `verifySSL`
is the only flag that is not of the type of its option. -/
inductive Flag : Kind → Type where
  | value {k : Kind} (v : k.Val) : Flag k
  | ssl (s : GoString) : Flag .bool
  | pair (p : CommandsFlagSetPair) : Flag .commands

abbrev Flags := (f : Field) → Option (Flag f.kind)

inductive Failure where
  | err (msg : GoString)
  | panic (msg : GoString)
  | exit

/-- The `yaml` tag names the flag, the `arg` tag where that is missing or `-`. -/
def Field.flagName (f : Field) : Option String :=
  match f.yaml with
  | none => f.arg
  | some name => if name = "-" then f.arg else some name

/-- The flag of an option and its default. -/
def Flag.initial : (k : Kind) → Bool → k.Val → Option (Flag k)
  | .bool, true, v => some (.ssl (formatBool v))
  | .processTokens, _, _ => some (.value [])
  | .appLogs, _, _ => some (.value [])
  | .healthChecks, _, _ => none
  | .commands, _, _ => some (.pair ⟨[], []⟩)
  | _, _, v => some (.value v)

def registerFlags (o : Options) : Flags := fun f =>
  if f.flagName = none then none else Flag.initial f.kind (f = .verifySSL) (o f)

/-- The names a `FlagSet` gets; it panics when one is registered twice. -/
def Field.flagNames (f : Field) : List String :=
  match f.kind with
  | .healthChecks => []
  | .commands => ["urlParams", "cmd"]
  | _ => f.flagName.toList

theorem flagNames_nodup : (Field.all.flatMap Field.flagNames).Nodup := by decide +kernel

/-- The flag a command-line word belongs to. -/
inductive Target where
  | option (f : Field)
  | urlParams
  | cmd
  deriving DecidableEq

def Target.field : Target → Field
  | .option f => f
  | .urlParams | .cmd => .commands

/-- `Set` of the flag: slices collect, the other kinds are parsed by `parse`. -/
def Flag.set (parse : (k : Kind) → GoString → Option k.Val) :
    {k : Kind} → Flag k → GoString → Except Failure (Flag k)
  | .processTokens, .value v, s => .ok (.value (v ++ [s]))
  | .appLogs, .value v, s => .ok (.value (v ++ [s]))
  | k, .value _, s =>
    match parse k s with
    | some v => .ok (.value v)
    | none => .error .exit
  | _, .ssl _, s => .ok (.ssl s)
  | _, .pair _, _ => .error .exit

def Flag.addUrlParams : {k : Kind} → Flag k → GoString → Flag k
  | _, .pair p, s => .pair { p with urlParamsSlice := p.urlParamsSlice ++ [s] }
  | _, flag, _ => flag

def Flag.addCmd : {k : Kind} → Flag k → GoString → Flag k
  | _, .pair p, s => .pair { p with cmdSlice := p.cmdSlice ++ [s] }
  | _, flag, _ => flag

/-- One flag of the command line with its value, `"true"` for a bare boolean flag. -/
def setFlag (parse : (k : Kind) → GoString → Option k.Val) (flags : Flags)
    (arg : Target × GoString) : Except Failure Flags :=
  match flags arg.1.field with
  | none => .error .exit
  | some flag =>
    match arg.1 with
    | .option _ => (flag.set parse arg.2).map fun flag => Function.update flags _ (some flag)
    | .urlParams => .ok (Function.update flags _ (some (flag.addUrlParams arg.2)))
    | .cmd => .ok (Function.update flags _ (some (flag.addCmd arg.2)))

/-- `flagSet.Parse` under `flag.ExitOnError`. -/
def parseArgs (parse : (k : Kind) → GoString → Option k.Val) (flags : Flags)
    (args : List (Target × GoString)) : Except Failure Flags :=
  args.foldlM (setFlag parse) flags

/-- The value a flag stands for. -/
def Flag.read : {k : Kind} → Flag k → Except Failure k.Val
  | _, .value v => .ok v
  | _, .ssl bs =>
    match parseBoolLower (toLower bs) with
    | some b => .ok b
    | none => .error (.err (str "-verifySSL should be true or false, not " ++ bs))
  | _, .pair x =>
    if x.urlParamsSlice.length ≠ x.cmdSlice.length then
      .error (.panic (str "num of urlParams should be same as num of cmd"))
    else .ok (List.zipWith Command.mk x.urlParamsSlice x.cmdSlice)

def Flag.isPair : {k : Kind} → Flag k → Bool
  | _, .pair _ => true
  | _, _ => false

/-- One round of the loop of `copyFlagsValue`: the options and the flag map after field `f`. -/
def copyField (dst : Options) (src : Flags) (f : Field) : Except Failure (Options × Flags) :=
  match src f with
  | none => .ok (dst, src)
  | some s => do
    let x ← s.read
    if s.isPair then return (Function.update dst f x, src)
    else if x = dst f then return (dst, Function.update src f none)
    else return (Function.update dst f x, src)

def copyFlagsValue (dst : Options) (src : Flags) : Except Failure (Options × Flags) :=
  Field.all.foldlM (fun (dst, src) f => copyField dst src f) (dst, src)

/-- The deferred removal of a slash at the end of the server address. -/
def trimServer (s : GoString) : GoString :=
  if 2 < s.length ∧ hasSuffix s (str "/") then s.take (s.length - 1) else s

/-- The world `ParseFlags` runs in: the value parsers, the files and the decoder. -/
structure Env where
  parse : (k : Kind) → GoString → Option k.Val
  workdir : GoString
  open_ : GoString → Except GoString GoString
  decode : GoString → Config → Except GoString Config

def finish (g : Config) : Config :=
  { g with options := Function.update g.options .server (trimServer (g.options .server)) }

/-- `ParseFlags` from the global configuration `g`, on the flags its words spell;
`none` is a command line with fewer than two words. A failure ends the process. -/
def parseFlags (env : Env) (g : Config) (args : Option (List (Target × GoString))) :
    Except Failure Config :=
  match args with
  | none => .ok g
  | some args => do
    let result ← parseArgs env.parse (registerFlags g.options) args
    let (options, result) ← copyFlagsValue g.options result
    let path : GoString := options .configPath
    if path = [] then return finish { g with options := options }
    match env.open_ path with
    | .error e =>
      .error (.err (str "workdir " ++ env.workdir ++ str " read config file path " ++ path ++
        str " failed: " ++ e))
    | .ok file =>
      match env.decode file { g with options := options } with
      | .error e =>
        .error (.err (str "decode config file path " ++ path ++ str " failed: " ++ e))
      | .ok g => do
        let (options, _) ← copyFlagsValue g.options result
        return finish { g with options := options }

end YcAgent
