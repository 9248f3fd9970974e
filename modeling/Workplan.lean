import Workplan.CommandLine
import Workplan.CommandLine.Arguments
import Workplan.CommandLine.Directory
import Workplan.CommandLine.Duration
import Workplan.CommandLine.Listing
import Workplan.CommandLine.Notes
import Workplan.Context
import Workplan.Context.Clock
import Workplan.Definition
import Workplan.Definition.Decoding
import Workplan.Definition.Document
import Workplan.Expression
import Workplan.Expression.Evaluation
import Workplan.Expression.Template
import Workplan.Graph
import Workplan.Graph.Builder
import Workplan.Graph.Error
import Workplan.Graph.Order
import Workplan.Graph.Validation
import Workplan.Handler
import Workplan.Handler.Builtin
import Workplan.Handler.Scripted
import Workplan.Main
import Workplan.NodeId
import Workplan.Number
import Workplan.Number.Binary64
import Workplan.Number.Decimal
import Workplan.Number.Power
import Workplan.Number.Shortest
import Workplan.Plan
import Workplan.Plan.Expansion
import Workplan.Reference
import Workplan.Reference.Parser
import Workplan.Registry
import Workplan.Replication
import Workplan.Run
import Workplan.Run.Error
import Workplan.Run.Report
import Workplan.Run.Step
import Workplan.Run.Task
import Workplan.Run.VirtualTime
import Workplan.Run.Work
import Workplan.Shape
import Workplan.Slot
import Workplan.SortedMap
import Workplan.Text.Blank
import Workplan.Text.Quoted
import Workplan.Timeline
import Workplan.Value
import Workplan.Value.Kind
import Workplan.Value.Text
import Workplan.WaitingTime
import Workplan.Yaml.Cursor
import Workplan.Yaml.Grammar
import Workplan.Yaml.Lexer
import Workplan.Yaml.Node
import Workplan.Yaml.Node.Value
import Workplan.Yaml.Place
import Workplan.Yaml.Scalar.Block
import Workplan.Yaml.Scalar.Gap
import Workplan.Yaml.Scalar.Plain
import Workplan.Yaml.Scalar.Quoted
import Workplan.Yaml.Scalar.Typing
import Workplan.Yaml.SyntaxError
import Workplan.Yaml.Tag
import Workplan.Yaml.Token
import Workplan.Yaml.TypedTree
import Workplan.Proofs.Blanks
import Workplan.Proofs.ByteOrder
import Workplan.Proofs.Coercion
import Workplan.Proofs.CommandLine.Arguments
import Workplan.Proofs.CommandLine.Durations
import Workplan.Proofs.Counters
import Workplan.Proofs.Digits
import Workplan.Proofs.Evaluation
import Workplan.Proofs.Expression.Quoting
import Workplan.Proofs.Expression.Reading
import Workplan.Proofs.Expression.ReferenceText
import Workplan.Proofs.Expression.Template
import Workplan.Proofs.Graph.Acceptance
import Workplan.Proofs.Graph.Construction
import Workplan.Proofs.Graph.Cycles
import Workplan.Proofs.Graph.Edges
import Workplan.Proofs.Graph.Identity
import Workplan.Proofs.Graph.Inventory
import Workplan.Proofs.Graph.Layout
import Workplan.Proofs.Graph.Literal
import Workplan.Proofs.Graph.Ordering
import Workplan.Proofs.Graph.Rejection
import Workplan.Proofs.Graph.Scoping
import Workplan.Proofs.Graph.Soundness
import Workplan.Proofs.Graph.Validity
import Workplan.Proofs.Graph.WellFormed
import Workplan.Proofs.Inputs
import Workplan.Proofs.Number.ExactValue
import Workplan.Proofs.Number.Numeral
import Workplan.Proofs.Number.Rounding
import Workplan.Proofs.Outcome
import Workplan.Proofs.Plan.Acyclicity
import Workplan.Proofs.Plan.Agreement
import Workplan.Proofs.Plan.Blueprint
import Workplan.Proofs.Plan.Cleanliness
import Workplan.Proofs.Plan.Clients
import Workplan.Proofs.Plan.Evolution
import Workplan.Proofs.Plan.Expansion
import Workplan.Proofs.Plan.Failure
import Workplan.Proofs.Plan.Operations
import Workplan.Proofs.Plan.Persistence
import Workplan.Proofs.Plan.Progress
import Workplan.Proofs.Plan.Readiness
import Workplan.Proofs.Plan.Scoping
import Workplan.Proofs.Plan.Soundness
import Workplan.Proofs.Plan.Splicing
import Workplan.Proofs.Plan.Statuses
import Workplan.Proofs.Plan.Unfolding
import Workplan.Proofs.Pointwise
import Workplan.Proofs.Replication
import Workplan.Proofs.Run.Behaviour
import Workplan.Proofs.Run.Calls
import Workplan.Proofs.Run.Chronicle
import Workplan.Proofs.Run.Coherence
import Workplan.Proofs.Run.Confluence
import Workplan.Proofs.Run.Covering
import Workplan.Proofs.Run.Deferral
import Workplan.Proofs.Run.Ending
import Workplan.Proofs.Run.Failures
import Workplan.Proofs.Run.Faultlessness
import Workplan.Proofs.Run.HandlerInputs
import Workplan.Proofs.Run.Handover
import Workplan.Proofs.Run.History
import Workplan.Proofs.Run.Idleness
import Workplan.Proofs.Run.Invariance
import Workplan.Proofs.Run.Ledger
import Workplan.Proofs.Run.Live
import Workplan.Proofs.Run.Mirroring
import Workplan.Proofs.Run.Numbering
import Workplan.Proofs.Run.Origins
import Workplan.Proofs.Run.Proceeding
import Workplan.Proofs.Run.Provision
import Workplan.Proofs.Run.Recording
import Workplan.Proofs.Run.Release
import Workplan.Proofs.Run.ResourceLifecycle
import Workplan.Proofs.Run.Rest
import Workplan.Proofs.Run.Results
import Workplan.Proofs.Run.Retention
import Workplan.Proofs.Run.ScheduleIndependence
import Workplan.Proofs.Run.Scheduling
import Workplan.Proofs.Run.Slots
import Workplan.Proofs.Run.Smoothness
import Workplan.Proofs.Run.Stage
import Workplan.Proofs.Run.Stock
import Workplan.Proofs.Run.Teardown
import Workplan.Proofs.Run.Termination
import Workplan.Proofs.Run.Turn
import Workplan.Proofs.Run.Verdict
import Workplan.Proofs.Run.Works
import Workplan.Proofs.SharedSlots
import Workplan.Proofs.SharedSlots.History
import Workplan.Proofs.Spans
