import YcAgent.Base.RangeMap
import YcAgent.Config.Options
import YcAgent.Api.ParseActions

/-!
# The action handler

`handleActionAPI` checks a request and starts a worker that calls `ProcessPids` for one
entry after the other, stores what each call gave in a map and fills the response from
it. A panic of the worker ends the agent, and with it the request that waits for it.
-/
namespace YcAgent.Api

open Go

structure ActionRequest where
  key : GoString
  actions : List GoString
  waitFor : Bool
  hd : Option Bool
  tags : GoString

structure ActionResponse where
  code : Int
  msg : GoString
  dashboardReportURLs : List GoString
  output : List (List GoString)
  deriving DecidableEq

def ActionResponse.new : ActionResponse := ⟨0, [], [], []⟩

def ActionResponse.failed (msg : GoString) : ActionResponse :=
  { ActionResponse.new with code := -1, msg := msg }

/-- The arguments of one call of `s.ProcessPids`. -/
structure Invocation where
  pids : List Int
  pid2Name : GoMap Int GoString
  hd : Bool
  tags : GoString
  deriving DecidableEq

/-- `processPids i` is what call number `i` of the request returns: the report URLs and
the error. -/
structure Server where
  processPids : Nat → Invocation → List GoString × Option GoString

structure ProcessPidsResult where
  rUrls : List GoString
  err : Option GoString
  output : List GoString
  deriving DecidableEq

/-- What the worker has done: its calls, and the map it keeps. -/
structure Worker where
  invocations : List Invocation
  processPidsResults : RangeMap Entry ProcessPidsResult

/-- The response that is encoded, none when the agent dies first, and the calls made. -/
structure Handled where
  resp : Option ActionResponse
  invocations : List Invocation
  panicked : Bool

def validateActionAPIParseResult (isProcessExists : Int → Bool) (result : List Entry) :
    Bool × GoString × List (List GoString) :=
  let unsupportedOperationCount := result.countP fun i => i = .string unsupportedOperation
  if result.length = unsupportedOperationCount then
    (false, [], result.filterMap fun
      | .string s => some [s]
      | .int _ => none)
  else if (pidsOf result).any isProcessExists then (true, [], [])
  else (false, str "You have entered non-existent process ids.", [])

/-- `config.GlobalConfig.ApiKey`. -/
def apiKey (o : Options) : GoString := o .apiKey

section Handler

variable (o : Options) (table : Nat → ProcessTable) (isProcessExists : Int → Bool) (s : Server)
  (order : RangeOrder Entry ProcessPidsResult)

def invocation (req : ActionRequest) (parsed : Parsed) (pid : Int) : Invocation :=
  ⟨[pid], parsed.pid2Name, req.hd.getD (o .heapDump), req.tags⟩

/-- One round of the worker's loop. In the error branch the text comes from the `err` of
the handler, and a nil one panics. -/
def processEntry (err : Option GoString) (req : ActionRequest) (parsed : Parsed) (w : Worker) :
    Entry → Except Worker Worker
  | .int pid =>
    let call := invocation o req parsed pid
    let (rUrls, pErr) := s.processPids w.invocations.length call
    let invocations := w.invocations ++ [call]
    match pErr, err with
    | none, _ =>
      .ok ⟨invocations, w.processPidsResults.set (.int pid) ⟨rUrls, none, itoa pid :: rUrls⟩⟩
    | some _, none => .error ⟨invocations, w.processPidsResults⟩
    | some e, some text =>
      .ok ⟨invocations, w.processPidsResults.set (.int pid) ⟨rUrls, some e, [itoa pid, text]⟩⟩
  | .string t =>
    .ok ⟨w.invocations, w.processPidsResults.set (.string t) ⟨[], none, [unsupportedOperation]⟩⟩

def processEntries (err : Option GoString) (req : ActionRequest) (parsed : Parsed) (w : Worker)
    (result : List Entry) : Except Worker Worker :=
  result.foldlM (processEntry o s err req parsed) w

/-- Fills the response from the map; none is the panic of a nil `err`. -/
def populate (err : Option GoString) (results : RangeMap Entry ProcessPidsResult)
    (resp : ActionResponse) : Option ActionResponse :=
  let visited := (order.visit results.entries).map Prod.snd
  if visited.length = 1 then
    visited.foldlM (fun resp r =>
      match r.err with
      | some _ => err.map fun text => { resp with code := -1, msg := text }
      | none => some { resp with dashboardReportURLs := r.rUrls }) resp
  else
    some (visited.foldl (fun resp r => { resp with
      dashboardReportURLs := resp.dashboardReportURLs ++ r.rUrls
      output := resp.output ++ [r.output] }) resp)

/-- The body of the goroutine. -/
def work (err : Option GoString) (req : ActionRequest) (parsed : Parsed) :
    Option ActionResponse × List Invocation :=
  match processEntries o s err req parsed ⟨[], RangeMap.empty⟩ parsed.result with
  | .error w => (none, w.invocations)
  | .ok w => (populate order err w.processPidsResults ActionResponse.new, w.invocations)

/-- Without waiting the response is encoded as it stands when the goroutine starts. -/
def handleActionAPI (req : ActionRequest) : Handled :=
  if apiKey o ≠ req.key then ⟨some (.failed (str "invalid key passed")), [], false⟩
  else match parseActions table req.actions with
    | .error err => ⟨some (.failed err), [], false⟩
    | .ok parsed =>
      let (resultValid, respMsg, respOutput) :=
        validateActionAPIParseResult isProcessExists parsed.result
      if resultValid = false then
        ⟨some { ActionResponse.failed respMsg with output := respOutput }, [], false⟩
      else
        let shouldWait := req.waitFor || parsed.hasCmd
        let (filled, invocations) := work o s order none req parsed
        ⟨if shouldWait then filled else some ActionResponse.new, invocations, filled.isNone⟩

/-- The request passes the checks and the worker starts. -/
structure Accepted (req : ActionRequest) (parsed : Parsed) : Prop where
  key : apiKey o = req.key
  parse : parseActions table req.actions = .ok parsed
  valid : (validateActionAPIParseResult isProcessExists parsed.result).1 = true

end Handler

end YcAgent.Api
