import Scheduling.Arith
import Scheduling.Benchmark.Pattern
import Scheduling.Benchmark.Plan
import Scheduling.Benchmark.Report
import Scheduling.Benchmark.Result
import Scheduling.Benchmark.Run
import Scheduling.Console.Figure
import Scheduling.Console.Line
import Scheduling.Console.Notice
import Scheduling.Console.Style
import Scheduling.Decimal.Layout
import Scheduling.Decimal.Read
import Scheduling.Decimal.Shortest
import Scheduling.Domains
import Scheduling.Engine.Exchange
import Scheduling.Engine.Program
import Scheduling.Engine.Reply
import Scheduling.Eval.Basic
import Scheduling.Eval.Error
import Scheduling.Eval.Node
import Scheduling.Eval.Query
import Scheduling.Eval.StepPoints
import Scheduling.Eval.Verify
import Scheduling.Folder
import Scheduling.Json.Basic
import Scheduling.Json.Number
import Scheduling.Json.Reader
import Scheduling.Json.Shape
import Scheduling.Json.Writer
import Scheduling.Listing.Execute
import Scheduling.Listing.Program
import Scheduling.Listing.Statement
import Scheduling.Model.Basic
import Scheduling.Model.Building
import Scheduling.Model.Call
import Scheduling.Model.Error
import Scheduling.Model.Node
import Scheduling.Model.Operator
import Scheduling.Model.Sample
import Scheduling.Model.Table
import Scheduling.Model.Variable
import Scheduling.Parameters.Basic
import Scheduling.Parameters.Error
import Scheduling.Parameters.File
import Scheduling.Parameters.Flags
import Scheduling.Parameters.Record
import Scheduling.Proofs.Arena.Basic
import Scheduling.Proofs.Arena.Coherent
import Scheduling.Proofs.Arena.Formed
import Scheduling.Proofs.Arena.Calls
import Scheduling.Proofs.Arena.Sound
import Scheduling.Proofs.Arena.History
import Scheduling.Proofs.SortedMap
import Scheduling.Proofs.Floats
import Scheduling.Proofs.Tables
import Scheduling.Proofs.Record.Covers
import Scheduling.Proofs.Record.Reachable
import Scheduling.Proofs.Record.Written
import Scheduling.Proofs.Record.Restore
import Scheduling.Proofs.Record.Whole
import Scheduling.Proofs.Record.Copy
import Scheduling.Proofs.Record.RoundTrip
import Scheduling.Proofs.Eval.Alike
import Scheduling.Proofs.Eval.Operands
import Scheduling.Proofs.Eval.Copies
import Scheduling.Proofs.Eval.Values
import Scheduling.Proofs.Eval.Checks
import Scheduling.Proofs.Record.Solution
import Scheduling.Record.Basic
import Scheduling.Record.Decode
import Scheduling.Record.Document
import Scheduling.Record.Encode
import Scheduling.Record.Error
import Scheduling.Record.Event
import Scheduling.Record.Json
import Scheduling.Record.Request
import Scheduling.Scenario.Call
import Scheduling.Scenario.Reader
import Scheduling.Scenario.Script
import Scheduling.Session.Basic
import Scheduling.Session.Error
import Scheduling.Session.Job
import Scheduling.Session.Registry
import Scheduling.Session.Report
import Scheduling.Session.Result
import Scheduling.Session.Step
import Scheduling.Shell.Arithmetic
import Scheduling.Shell.Command
import Scheduling.Shell.Format
import Scheduling.Shell.Options
import Scheduling.Shell.Pattern
import Scheduling.Shell.Reader
import Scheduling.Shell.Run
import Scheduling.Shell.State
import Scheduling.Solution
import Scheduling.SortedMap
import Scheduling.Text.Blank
import Scheduling.Text.Hidden
import Scheduling.Text.Quoted
import Scheduling.Text.Uppercase
import Scheduling.Toml
import Scheduling.Toml.DateTime
import Scheduling.Toml.Table
import Scheduling.Yaml.Basic
import Scheduling.Yaml.Content
import Scheduling.Yaml.Cursor
import Scheduling.Yaml.Document
import Scheduling.Yaml.Plain
import Scheduling.Yaml.Property
import Scheduling.Yaml.Scalar
import Scheduling.Yaml.Token
import Scheduling.Proofs.Json.Nesting
import Scheduling.Proofs.Json.Reading
import Scheduling.Proofs.Json.Shape
import Scheduling.Proofs.Json.Arranged
import Scheduling.Proofs.Record.Json
import Scheduling.Proofs.Parameters.Fields
import Scheduling.Proofs.Parameters.Record
import Scheduling.Proofs.Parameters.Admitted
import Scheduling.Proofs.Parameters.Flags
import Scheduling.Proofs.Parameters.FlagValues
import Scheduling.Proofs.Parameters.Combine
import Scheduling.Proofs.Record.Range
import Scheduling.Proofs.Record.Levels
import Scheduling.Proofs.Record.Texts
import Scheduling.Proofs.Record.Trees
import Scheduling.Proofs.Record.Requests
import Scheduling.Proofs.Record.Events
import Scheduling.Proofs.Record.Offers
import Scheduling.Proofs.Record.Numbering
import Scheduling.Proofs.Record.Denotes
import Scheduling.Proofs.Record.References
import Scheduling.Proofs.Record.DecodedTables
import Scheduling.Proofs.Session.Effects
import Scheduling.Proofs.Session.Events
import Scheduling.Proofs.Session.Steps
import Scheduling.Proofs.Session.Lines
import Scheduling.Proofs.Session.Results
import Scheduling.Proofs.Benchmark.Outcome
import Scheduling.Proofs.Benchmark.Course
import Scheduling.Proofs.Benchmark.Results
import Scheduling.Proofs.Benchmark.Pattern
import Scheduling.Proofs.Benchmark.Paths
import Scheduling.Proofs.Eval.Safe
import Scheduling.Proofs.Eval.Kinds
import Scheduling.Proofs.Eval.Nodes
import Scheduling.Proofs.Eval.Soundness
import Scheduling.Proofs.Eval.Sweep
import Scheduling.Proofs.Eval.Cumulative
import Scheduling.Proofs.Eval.CumulativeBound
import Scheduling.Proofs.Eval.StepFunctions
import Scheduling.Proofs.Eval.Memory
import Scheduling.Proofs.Rounding
import Scheduling.Proofs.Eval.Reading
import Scheduling.Proofs.Eval.Answers
import Scheduling.Proofs.Eval.NoOverlap
import Scheduling.Proofs.Eval.Precedence
import Scheduling.Proofs.Eval.Comparisons
import Scheduling.Proofs.Eval.Aggregates
import Scheduling.Proofs.Eval.Absence
import Scheduling.Proofs.Replay.Rename
import Scheduling.Proofs.Replay.Matches
import Scheduling.Proofs.Replay.Simulation
import Scheduling.Proofs.Replay.Calls
import Scheduling.Proofs.Replay.Failures
import Scheduling.Proofs.Replay.Resume
import Scheduling.Proofs.Listing.Rebuilt
import Scheduling.Proofs.Listing.Operands
import Scheduling.Proofs.Listing.Nodes
import Scheduling.Proofs.Listing.Program
import Scheduling.Proofs.Listing.Refusals
import Scheduling.Proofs.Parameters.Admitted
import Scheduling.Proofs.Benchmark.Best
import Scheduling.Proofs.Benchmark.Csv
import Scheduling.Proofs.Benchmark.Markdown
import Scheduling.Proofs.Eval.Blame
import Scheduling.Proofs.Eval.Overflow
import Scheduling.Proofs.Text.Lines
import Scheduling.Proofs.Session.Texts
import Scheduling.Proofs.Console.Texts
