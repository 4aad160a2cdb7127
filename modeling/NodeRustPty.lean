import NodeRustPty.VirtualDom
import NodeRustPty.HashOrder
import NodeRustPty.Diff
import NodeRustPty.Renderer
import NodeRustPty.PatchCorrectness
import NodeRustPty.DiffChanges
import NodeRustPty.TreeWalks
import NodeRustPty.Locks
import NodeRustPty.Multiplexer
import NodeRustPty.MergeSessions
import NodeRustPty.SessionIds
import NodeRustPty.SessionStreams
import NodeRustPty.BackgroundTasks
import NodeRustPty.Interaction
import NodeRustPty.PtyProcess
import NodeRustPty.ProcessRules
import NodeRustPty.Utf8
import NodeRustPty.CommandHandler
import NodeRustPty.CommandLoop
import NodeRustPty.Descriptors
import NodeRustPty.StrParse
import NodeRustPty.PtyHandle
import NodeRustPty.RequestEndings
import NodeRustPty.SessionRuns
import NodeRustPty.ConcurrentCreates
import NodeRustPty.ConcurrentSplit
import NodeRustPty.NumberedSplit
import NodeRustPty.TearDown
import NodeRustPty.Utf8Encoding
import NodeRustPty.ShortWrites
import NodeRustPty.StreamDecoding
import NodeRustPty.PtyRenderer
import NodeRustPty.Emulator
import NodeRustPty.Panics
import NodeRustPty.AnsweredCommands
import NodeRustPty.HandleClones
import NodeRustPty.ScreenAgreement
import NodeRustPty.ScreenExactness
import NodeRustPty.Transitions
import NodeRustPty.OutputHandlers
import NodeRustPty.ConcurrentRenders
import NodeRustPty.DirectReads
import NodeRustPty.SessionIsolation
import NodeRustPty.ShellChange
import NodeRustPty.ControlSequences
import NodeRustPty.AnsiParser
import NodeRustPty.LineTerminal
import NodeRustPty.AsciiParser
import NodeRustPty.AsciiLayout
import NodeRustPty.KeyEncoders
import NodeRustPty.References
import NodeRustPty.PathExpansion
import NodeRustPty.ShellQuoting
import NodeRustPty.PtyWorker
import NodeRustPty.WorkerLocks
import NodeRustPty.WorkerPipes
import NodeRustPty.FailedRenders
import NodeRustPty.FailedOutput
import NodeRustPty.Sgr
import NodeRustPty.TextStyles
import NodeRustPty.UnwrittenInput
import NodeRustPty.SessionsAfterClose
import NodeRustPty.EnvExports
import NodeRustPty.CloseFallback
import NodeRustPty.ShellForks
import NodeRustPty.NewShells
import NodeRustPty.NodeSearch
import NodeRustPty.StateListeners
import NodeRustPty.WordBuffer
import NodeRustPty.AsciiArithmetic
import NodeRustPty.JsObjects
import NodeRustPty.CloseOnce
import NodeRustPty.ProcessInterface
import NodeRustPty.ResizeRequests
import NodeRustPty.TerminalDescriptors
import NodeRustPty.IdArithmetic
import NodeRustPty.Service
import NodeRustPty.PtyService
import NodeRustPty.SessionStore
import NodeRustPty.StateRuns
import NodeRustPty.ChildProcesses
import NodeRustPty.ControlStreams
import NodeRustPty.AnsiStreams
import NodeRustPty.WorkerStreams
import NodeRustPty.EscapeCodes
import NodeRustPty.KeyStreams
