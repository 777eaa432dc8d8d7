import YcAgent.Base.Strconv
import YcAgent.Base.FirstWins

/-!
# The options of the agent

`Options` is a record that `ParseFlags` walks by reflection, field by field in
the order of declaration. Here a field is a value of `Field`, its Go type is its
`Kind`, and an `Options` value is a function that gives every field a value of
its own type. The usage texts only reach the help output and are left out.
-/
namespace YcAgent

open Go

structure HealthCheck where
  endpoint : GoString
  httpBody : GoString
  timeoutSecs : Int
  deriving DecidableEq

structure Command where
  urlParams : GoString
  cmd : GoString
  deriving DecidableEq

inductive Kind where
  | string | bool | int | int64 | uint | duration
  | processTokens | appLogs | commands | healthChecks
  deriving DecidableEq

/-- Durations are nanoseconds. -/
abbrev Kind.Val : Kind → Type
  | .string => GoString
  | .bool => Bool
  | .int | .int64 | .duration => Int
  | .uint => Nat
  | .processTokens | .appLogs => List GoString
  | .commands => List Command
  | .healthChecks => GoMap GoString HealthCheck

instance : (k : Kind) → DecidableEq k.Val
  | .string => inferInstanceAs (DecidableEq GoString)
  | .bool => inferInstanceAs (DecidableEq Bool)
  | .int | .int64 | .duration => inferInstanceAs (DecidableEq Int)
  | .uint => inferInstanceAs (DecidableEq Nat)
  | .processTokens | .appLogs => inferInstanceAs (DecidableEq (List GoString))
  | .commands => inferInstanceAs (DecidableEq (List Command))
  | .healthChecks => inferInstanceAs (DecidableEq (GoMap GoString HealthCheck))

def Kind.zero : (k : Kind) → k.Val
  | .string | .processTokens | .appLogs | .commands => []
  | .bool => false
  | .int | .int64 | .duration => (0 : Int)
  | .uint => (0 : Nat)
  | .healthChecks => ∅

inductive Field where
  | pid | apiKey | server | appName | heapDump | heapDumpPath | threadDumpPath
  | tdCaptureDuration | gcPath | javaHomePath | deferDelete | showVersion | configPath | commands
  | verifySSL | caCertPath | m3 | m3Frequency | processTokens | excludeProcessTokens | accessLog
  | captureCmd | address | port | gcCaptureCmd | tdCaptureCmd | hdCaptureCmd | onlyCapture
  | pingHost | tags | gcCaptureMode | tdCaptureMode | hdCaptureMode | jCmdCaptureMode
  | vmStatMode | topMode | logFilePath | logFileMaxSize | logFileMaxCount | logLevel | appLog
  | appLogs | appLogLineCount | storagePath | kubernetes | healthChecks | boomiUser
  | boomiPassword | boomi | boomiUrl | boomiAcctId | period | atomId | edScript | edDataFolder
  deriving DecidableEq

/-- The fields in the order of declaration. -/
def Field.all : List Field :=
  [.pid, .apiKey, .server, .appName, .heapDump, .heapDumpPath, .threadDumpPath,
   .tdCaptureDuration, .gcPath, .javaHomePath, .deferDelete, .showVersion, .configPath,
   .commands, .verifySSL, .caCertPath, .m3, .m3Frequency, .processTokens, .excludeProcessTokens,
   .accessLog, .captureCmd, .address, .port, .gcCaptureCmd, .tdCaptureCmd, .hdCaptureCmd,
   .onlyCapture, .pingHost, .tags, .gcCaptureMode, .tdCaptureMode, .hdCaptureMode,
   .jCmdCaptureMode, .vmStatMode, .topMode, .logFilePath, .logFileMaxSize, .logFileMaxCount,
   .logLevel, .appLog, .appLogs, .appLogLineCount, .storagePath, .kubernetes, .healthChecks,
   .boomiUser, .boomiPassword, .boomi, .boomiUrl, .boomiAcctId, .period, .atomId, .edScript,
   .edDataFolder]

def Field.kind : Field → Kind
  | .heapDump | .deferDelete | .showVersion | .verifySSL | .m3 | .onlyCapture | .gcCaptureMode
    | .tdCaptureMode | .hdCaptureMode | .vmStatMode | .topMode | .kubernetes | .boomi => .bool
  | .tdCaptureDuration | .m3Frequency => .duration
  | .commands => .commands
  | .processTokens | .excludeProcessTokens => .processTokens
  | .port | .appLogLineCount => .int
  | .logFileMaxSize => .int64
  | .logFileMaxCount | .period => .uint
  | .appLogs => .appLogs
  | .healthChecks => .healthChecks
  | _ => .string

def Field.yaml : Field → Option String
  | .pid => some "p"
  | .apiKey => some "k"
  | .server => some "s"
  | .appName => some "a"
  | .heapDump => some "hd"
  | .heapDumpPath => some "hdPath"
  | .threadDumpPath => some "tdPath"
  | .tdCaptureDuration => some "tdCaptureDuration"
  | .gcPath => some "gcPath"
  | .javaHomePath => some "j"
  | .deferDelete => some "d"
  | .showVersion => some "-"
  | .configPath => some "-"
  | .commands => some "cmds"
  | .verifySSL => some "verifySSL"
  | .caCertPath => some "caCertPath"
  | .m3 => none
  | .m3Frequency => some "m3Frequency"
  | .processTokens => some "processTokens"
  | .excludeProcessTokens => some "excludeTokens"
  | .accessLog => some "accessLog"
  | .captureCmd => some "captureCmd"
  | .address => some "address"
  | .port => some "port"
  | .gcCaptureCmd => some "gcCaptureCmd"
  | .tdCaptureCmd => some "tdCaptureCmd"
  | .hdCaptureCmd => some "hdCaptureCmd"
  | .onlyCapture => some "onlyCapture"
  | .pingHost => some "pingHost"
  | .tags => some "tags"
  | .gcCaptureMode => some "gcCaptureMode"
  | .tdCaptureMode => some "tdCaptureMode"
  | .hdCaptureMode => some "hdCaptureMode"
  | .jCmdCaptureMode => some "jCmdCaptureMode"
  | .vmStatMode => some "vmstatMode"
  | .topMode => some "topMode"
  | .logFilePath => some "logFilePath"
  | .logFileMaxSize => some "logFileMaxSize"
  | .logFileMaxCount => some "logFileMaxCount"
  | .logLevel => some "logLevel"
  | .appLog => some "appLog"
  | .appLogs => some "appLogs"
  | .appLogLineCount => some "appLogLineCount"
  | .storagePath => some "storagePath"
  | .kubernetes => some "kubernetes"
  | .healthChecks => some "healthChecks"
  | .boomiUser => some "boomiUser"
  | .boomiPassword => some "boomiPassword"
  | .boomi => some "boomi"
  | .boomiUrl => some "boomiUrl"
  | .boomiAcctId => some "boomiAcctId"
  | .period => some "period"
  | .atomId => some "atomId"
  | .edScript => some "edScript"
  | .edDataFolder => some "edDataFolder"

def Field.arg : Field → Option String
  | .showVersion => some "version"
  | .configPath => some "c"
  | .m3 => some "m3"
  | _ => none

theorem Field.mem_all (f : Field) : f ∈ Field.all := by
  cases f <;> decide

theorem Field.nodup_all : Field.all.Nodup := by decide

abbrev Options := (f : Field) → f.kind.Val

structure Config where
  version : GoString
  timezoneID : GoString
  options : Options

def Duration.second : Int := 1000000000
def Duration.minute : Int := 60 * Duration.second

def defaultOptions : Options
  | .verifySSL => true
  | .m3Frequency => 3 * Duration.minute
  | .address => str "localhost"
  | .port => (-1 : Int)
  | .logFileMaxCount => (7 : Nat)
  | .logFileMaxSize => (512 * 1024 * 1024 : Int)
  | .logLevel => str "info"
  | .pingHost => str "google.com"
  | .deferDelete => true
  | .appLogLineCount => (10000 : Int)
  | .tdCaptureDuration => 0 * Duration.second
  | f => f.kind.zero

def defaultConfig : Config := ⟨[], [], defaultOptions⟩

end YcAgent
