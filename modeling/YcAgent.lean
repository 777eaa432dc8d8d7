import YcAgent.Base.Strings
import YcAgent.Base.Strconv
import YcAgent.Base.Scanner
import YcAgent.Base.FirstWins
import YcAgent.Base.Dedup
import YcAgent.Base.Run
import YcAgent.Base.Slice
import YcAgent.Base.Keyed
import YcAgent.Config.Options
import YcAgent.Config.ParseFlags
import YcAgent.Config.Precedence
import YcAgent.Capture.ProcessTokens
import YcAgent.Capture.ProcOthers
import YcAgent.Capture.ProcWindows
import YcAgent.Capture.GC
import YcAgent.Capture.Post
import YcAgent.Capture.AppLogM3
import YcAgent.Capture.AppLogM3Call
import YcAgent.Capture.AppLogM3Truncation
import YcAgent.Capture.AppLogM3Growing
import YcAgent.Capture.AppLogM3ExactlyOnce
import YcAgent.Capture.AppLogM3Delivery
import YcAgent.Agent.ProcessPids
import YcAgent.Agent.M3Fin
import YcAgent.Agent.M3AppLog
import YcAgent.Agent.M3Interference
import YcAgent.Executils.Cmd
import YcAgent.Executils.ToWriter
import YcAgent.Executils.Timeout
import YcAgent.Executils.TimeoutHarm
import YcAgent.Base.RangeMap
import YcAgent.Api.ParseActions
import YcAgent.Api.Action
import YcAgent.Api.Worker
import YcAgent.Api.ActionOutcomes
import YcAgent.Api.ActionResponse
import YcAgent.Api.Forward
import YcAgent.Capture.TopProcess
import YcAgent.Base.FilePath
import YcAgent.Base.Glob
import YcAgent.Base.SortSlice
import YcAgent.Capture.GCFallback
import YcAgent.Capture.GCDisk
import YcAgent.Capture.GCTemplate
import YcAgent.Capture.GCGlob
import YcAgent.Base.Anchors
import YcAgent.Capture.GCProcess
import YcAgent.Base.WorkDir
import YcAgent.Agent.CaptureDir
import YcAgent.Agent.Modes
import YcAgent.Agent.Exclusion
import YcAgent.Base.Lines
import YcAgent.Capture.AppLog
import YcAgent.Agent.AppLogs
import YcAgent.Base.Listing
import YcAgent.Capture.ThreadDump
import YcAgent.Capture.GoCapture
import YcAgent.Agent.FanOut
import YcAgent.Agent.Restore
import YcAgent.Base.Loop
import YcAgent.Capture.Boomi
import YcAgent.Agent.GCPath
import YcAgent.Agent.GCPathExtract
import YcAgent.Capture.BoomiPaging
import YcAgent.Base.Table
import YcAgent.Capture.BoomiOutput
import YcAgent.Base.Url
import YcAgent.Base.Split
import YcAgent.Agent.M3Endpoint
import YcAgent.Capture.LogName
import YcAgent.Agent.Zip
import YcAgent.Base.Handle
import YcAgent.Executils.Background
import YcAgent.Capture.Fallback
import YcAgent.Capture.JStack
import YcAgent.Base.Channel
import YcAgent.Capture.JStackChannels
import YcAgent.Capture.JEP158Render
import YcAgent.Capture.AppLogRace
import YcAgent.Capture.OpenedFiles
import YcAgent.Capture.Discovery
import YcAgent.Agent.AutoDiscovery
import YcAgent.Base.Environ
import YcAgent.Executils.Hookers
import YcAgent.Base.Attempts
import YcAgent.Capture.Sections
import YcAgent.Executils.TempCopy
import YcAgent.Agent.M3GCLog
import YcAgent.Capture.HeapDump
import YcAgent.Capture.HeapDumpRun
import YcAgent.Agent.OwnDirectory
import YcAgent.Base.Cyclic
import YcAgent.Capture.GCRotation
import YcAgent.Capture.PositionLines
import YcAgent.Capture.EndpointParams
import YcAgent.Capture.ExtendedData
import YcAgent.Capture.LogSummary
import YcAgent.Capture.GCMoving
import YcAgent.Agent.PrinterFormat
import YcAgent.Agent.Printer
import YcAgent.Base.Lexicographic
import YcAgent.Capture.GCLatest
import YcAgent.Capture.GCRecognition
import YcAgent.Base.Submatch
import YcAgent.Base.Socket
import YcAgent.Base.CString
import YcAgent.Attach.HotSpotListener
import YcAgent.Attach.HotSpot
import YcAgent.Attach.OpenJ9Escapes
import YcAgent.Attach.OpenJ9Reply
import YcAgent.Attach.OpenJ9Handshake
import YcAgent.Attach.OpenJ9
import YcAgent.Attach.OpenJ9Exclusion
import YcAgent.Attach.OpenJ9Semaphore
import YcAgent.Agent.Shutdown
import YcAgent.Agent.Leftover
import YcAgent.Base.WaitGroup
import YcAgent.Attach.ProcessInfo
import YcAgent.Attach.JAttach
import YcAgent.Capture.Docker
import YcAgent.Agent.Attendance
import YcAgent.Capture.ExtendedDataRuns
import YcAgent.Agent.MetaInfo
import YcAgent.Base.KeyValue
import YcAgent.Capture.HealthCheck
import YcAgent.Capture.GoCaptureEnd
import YcAgent.Agent.M3FanOut
