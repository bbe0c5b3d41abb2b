import Confine.Assembly.Assembler
import Confine.Assembly.Disassembler
import Confine.Assembly.Mnemonic
import Confine.Assembly.Statement
import Confine.Assembly.Token
import Confine.Command.Arguments
import Confine.Command.Report
import Confine.Command.Run
import Confine.Confinement.Registry
import Confine.Digest.Sha256
import Confine.Engine.Basic
import Confine.Engine.Config
import Confine.Host.Basic
import Confine.Host.FileTree
import Confine.Host.World
import Confine.Json.Basic
import Confine.Json.Document
import Confine.Json.Lexer
import Confine.Json.Numeral
import Confine.Json.Parser
import Confine.Json.Printer
import Confine.Json.Reader
import Confine.Loading.Linked
import Confine.Loading.Policy
import Confine.Loading.Unit
import Confine.Machine.Activation
import Confine.Machine.Arithmetic
import Confine.Machine.Frame
import Confine.Machine.Heap
import Confine.Machine.OperandStack
import Confine.Machine.Request
import Confine.Machine.Step
import Confine.Machine.Task
import Confine.Machine.Thread
import Confine.Machine.Value
import Confine.Main
import Confine.Number.Double
import Confine.Number.Shortest
import Confine.Output.Capture
import Confine.Path
import Confine.Permission.Basic
import Confine.Permission.GrantSet
import Confine.Program.ClassFile
import Confine.Program.Codec
import Confine.Program.Compiled
import Confine.Program.Instruction
import Confine.Program.Stored
import Confine.Program.Verifier
import Confine.Proofs.Assembly.Composition
import Confine.Proofs.Assembly.Legible
import Confine.Proofs.Assembly.RoundTrip
import Confine.Proofs.Assembly.Written
import Confine.Proofs.Command.ClassLists
import Confine.Proofs.Confinement.History
import Confine.Proofs.Engine.Startup
import Confine.Proofs.Host.FileTree
import Confine.Proofs.Host.Twin
import Confine.Proofs.Json.Parsed
import Confine.Proofs.Json.Rearranged
import Confine.Proofs.Json.Tokens
import Confine.Proofs.Loading.Built
import Confine.Proofs.Loading.HandedOut
import Confine.Proofs.Loading.Libraries
import Confine.Proofs.Loading.Lookup
import Confine.Proofs.Loading.RelabelledUnits
import Confine.Proofs.Machine.Brief
import Confine.Proofs.Machine.Course
import Confine.Proofs.Machine.Depths
import Confine.Proofs.Machine.Footprint
import Confine.Proofs.Machine.Found
import Confine.Proofs.Machine.Handled
import Confine.Proofs.Machine.Integers
import Confine.Proofs.Machine.Landing
import Confine.Proofs.Machine.Query
import Confine.Proofs.Machine.Reachable
import Confine.Proofs.Machine.RelabelledSteps
import Confine.Proofs.Machine.Renumbered
import Confine.Proofs.Machine.Rerun
import Confine.Proofs.Machine.Retraced
import Confine.Proofs.Machine.Solo
import Confine.Proofs.Machine.Unseen
import Confine.Proofs.Output.Captured
import Confine.Proofs.Output.LineCuts
import Confine.Proofs.Output.Merged
import Confine.Proofs.Permission.Location
import Confine.Proofs.Program.Codec
import Confine.Proofs.Program.Relabelled
import Confine.Proofs.Program.Renaming
import Confine.Proofs.Program.Verified
import Confine.Proofs.Program.WellFormed
import Confine.Proofs.Sandbox.Alone
import Confine.Proofs.Sandbox.Audited
import Confine.Proofs.Sandbox.BriefTurns
import Confine.Proofs.Sandbox.Classified
import Confine.Proofs.Sandbox.Earlier
import Confine.Proofs.Sandbox.Endings
import Confine.Proofs.Sandbox.HookActs
import Confine.Proofs.Sandbox.Interleaved
import Confine.Proofs.Sandbox.Isolated
import Confine.Proofs.Sandbox.LabelNames
import Confine.Proofs.Sandbox.Mediated
import Confine.Proofs.Sandbox.Messages
import Confine.Proofs.Sandbox.Prepared
import Confine.Proofs.Sandbox.Refused
import Confine.Proofs.Sandbox.Registered
import Confine.Proofs.Sandbox.RelabelledRuns
import Confine.Proofs.Sandbox.Released
import Confine.Proofs.Sandbox.Scheduled
import Confine.Proofs.Sandbox.Secrecy
import Confine.Proofs.Sandbox.Serialized
import Confine.Proofs.Sandbox.Stopped
import Confine.Proofs.Sandbox.Unstarved
import Confine.Proofs.Text.Numeral
import Confine.Proofs.Time.Calendar
import Confine.Proofs.Time.Timestamp
import Confine.Proofs.Tracing.Alignment
import Confine.Proofs.Tracing.Around
import Confine.Proofs.Tracing.Coalescing
import Confine.Proofs.Tracing.Counterpart
import Confine.Proofs.Tracing.CutShort
import Confine.Proofs.Tracing.EntrySites
import Confine.Proofs.Tracing.FinalReports
import Confine.Proofs.Tracing.Followed
import Confine.Proofs.Tracing.HookCalls
import Confine.Proofs.Tracing.HookOwners
import Confine.Proofs.Tracing.LabelPlaces
import Confine.Proofs.Tracing.Limited
import Confine.Proofs.Tracing.LineAggregation
import Confine.Proofs.Tracing.LineChains
import Confine.Proofs.Tracing.LineCounts
import Confine.Proofs.Tracing.LineHooks
import Confine.Proofs.Tracing.LineLimit
import Confine.Proofs.Tracing.LineRace
import Confine.Proofs.Tracing.LineSites
import Confine.Proofs.Tracing.Lockstep
import Confine.Proofs.Tracing.Quiet
import Confine.Proofs.Tracing.Recorded
import Confine.Proofs.Tracing.Registration
import Confine.Proofs.Tracing.RelabelledHooks
import Confine.Proofs.Tracing.Reported
import Confine.Proofs.Tracing.Reread
import Confine.Proofs.Tracing.Reverified
import Confine.Proofs.Tracing.SharedCalls
import Confine.Proofs.Tracing.TracedClasses
import Confine.Proofs.Tracing.TracedEntries
import Confine.Proofs.Tracing.TracedLines
import Confine.Proofs.Tracing.TracedUnits
import Confine.Proofs.Tracing.TracerPairs
import Confine.Proofs.Tracing.TracersApart
import Confine.Proofs.Tracing.Transparent
import Confine.Proofs.Tracing.Woven
import Confine.Proofs.Uuid
import Confine.Sandbox.Arguments
import Confine.Sandbox.Execute
import Confine.Sandbox.Result
import Confine.Sandbox.Run
import Confine.Sandbox.Work
import Confine.Text.Blank
import Confine.Text.Lines
import Confine.Text.Numeral
import Confine.Text.Printable
import Confine.Text.Quoted
import Confine.Text.Utf8
import Confine.Time.Calendar
import Confine.Time.Timestamp
import Confine.Tracing.LineTrace.Basic
import Confine.Tracing.LineTrace.Hooks
import Confine.Tracing.LineTrace.Recording
import Confine.Tracing.MethodTrace.Basic
import Confine.Tracing.MethodTrace.Hooks
import Confine.Tracing.MethodTrace.Recording
import Confine.Tracing.Probe
import Confine.Tracing.Roster
import Confine.Tracing.Signal
import Confine.Tracing.Tracer
import Confine.Uuid
