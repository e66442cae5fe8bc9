import LuaDiagnostics.CommandLine.Invocation
import LuaDiagnostics.CommandLine.Parser
import LuaDiagnostics.Compiler.Command
import LuaDiagnostics.Compiler.Cycle
import LuaDiagnostics.Compiler.ErrorStream
import LuaDiagnostics.Compiler.Machine
import LuaDiagnostics.Diagnostic
import LuaDiagnostics.Document
import LuaDiagnostics.Failure
import LuaDiagnostics.FileSystem
import LuaDiagnostics.Interpreter
import LuaDiagnostics.Main
import LuaDiagnostics.Message.Parser
import LuaDiagnostics.Message.Resolve
import LuaDiagnostics.Notification
import LuaDiagnostics.Path
import LuaDiagnostics.Program
import LuaDiagnostics.Proofs.CommandLine.Values
import LuaDiagnostics.Proofs.Compiler.Cancellation
import LuaDiagnostics.Proofs.Compiler.ErrorStream
import LuaDiagnostics.Proofs.Compiler.LastGiven
import LuaDiagnostics.Proofs.Message.Columns
import LuaDiagnostics.Proofs.Message.Complaint
import LuaDiagnostics.Proofs.Message.Cut
import LuaDiagnostics.Proofs.Message.Language
import LuaDiagnostics.Proofs.Message.LineEnds
import LuaDiagnostics.Proofs.Message.Placement
import LuaDiagnostics.Proofs.Message.Surroundings
import LuaDiagnostics.Proofs.Path.Ancestors
import LuaDiagnostics.Proofs.Path.Parts
import LuaDiagnostics.Proofs.Program.Check
import LuaDiagnostics.Proofs.Program.Parse
import LuaDiagnostics.Proofs.Registry.History
import LuaDiagnostics.Proofs.Report.Grammar
import LuaDiagnostics.Proofs.Report.Paint
import LuaDiagnostics.Proofs.Report.Reader
import LuaDiagnostics.Proofs.Report.RoundTrip
import LuaDiagnostics.Proofs.Report.Underline
import LuaDiagnostics.Proofs.Report.Words
import LuaDiagnostics.Proofs.Session.Answers
import LuaDiagnostics.Proofs.Session.Course
import LuaDiagnostics.Proofs.Session.Effects
import LuaDiagnostics.Proofs.Session.Forgetting
import LuaDiagnostics.Proofs.Session.Pool
import LuaDiagnostics.Proofs.Session.Slots
import LuaDiagnostics.Proofs.Session.Steps
import LuaDiagnostics.Proofs.Session.Supersession
import LuaDiagnostics.Proofs.Session.Table
import LuaDiagnostics.Proofs.Settings.Discovery
import LuaDiagnostics.Proofs.Settings.Overrides
import LuaDiagnostics.Proofs.Settings.Table
import LuaDiagnostics.Proofs.Text.Bytes
import LuaDiagnostics.Proofs.Text.Lines
import LuaDiagnostics.Proofs.Text.Lossy
import LuaDiagnostics.Proofs.Text.Pattern
import LuaDiagnostics.Proofs.Text.Search
import LuaDiagnostics.Proofs.Text.Utf8
import LuaDiagnostics.Proofs.Watch.Calls
import LuaDiagnostics.Proofs.Watch.History
import LuaDiagnostics.Proofs.Watch.Loop
import LuaDiagnostics.Proofs.Watch.Polling
import LuaDiagnostics.Proofs.Watch.Removal
import LuaDiagnostics.Proofs.Watch.Reporting
import LuaDiagnostics.Proofs.Watch.Reports
import LuaDiagnostics.Proofs.Watch.Saves
import LuaDiagnostics.Proofs.Watch.Watching
import LuaDiagnostics.Registry
import LuaDiagnostics.Report.Human
import LuaDiagnostics.Report.Json
import LuaDiagnostics.Report.Paint
import LuaDiagnostics.Session
import LuaDiagnostics.Session.Worker
import LuaDiagnostics.Settings
import LuaDiagnostics.Settings.Discovery
import LuaDiagnostics.SortedMap
import LuaDiagnostics.Text.Lines
import LuaDiagnostics.Text.Quoted
import LuaDiagnostics.Text.Search
import LuaDiagnostics.Text.Utf8
import LuaDiagnostics.Text.Visible
import LuaDiagnostics.Toml.DateTable
import LuaDiagnostics.Toml.Lexical
import LuaDiagnostics.Toml.Number
import LuaDiagnostics.Toml.Parser
import LuaDiagnostics.Toml.Value
import LuaDiagnostics.Watch.Dispatch
import LuaDiagnostics.Watch.Loop
import LuaDiagnostics.Watch.Poll
import LuaDiagnostics.Watch.Script
