import MediaViews.Command.Arguments
import MediaViews.Command.Help
import MediaViews.Command.Reply
import MediaViews.Command.Run
import MediaViews.Dataset.Basic
import MediaViews.Dataset.Description
import MediaViews.Double.Basic
import MediaViews.Double.Rounding
import MediaViews.Double.Shortest
import MediaViews.Expr.Basic
import MediaViews.Expr.Literal
import MediaViews.Expr.Query
import MediaViews.Filter.Basic
import MediaViews.Filter.Condition
import MediaViews.Filter.Error
import MediaViews.Filter.Keypoint
import MediaViews.Filter.Operand
import MediaViews.Filter.Predicate
import MediaViews.Filter.Stages
import MediaViews.Filter.Target
import MediaViews.Filter.Wire
import MediaViews.Instant
import MediaViews.Json.Basic
import MediaViews.Json.Decode
import MediaViews.Json.Fault
import MediaViews.Json.Printer
import MediaViews.Json.Reader
import MediaViews.Json.Tree
import MediaViews.LabelTags.Counts
import MediaViews.LabelTags.Filter
import MediaViews.LabelTags.Source
import MediaViews.Log.Event
import MediaViews.Log.Record
import MediaViews.Log.Scope
import MediaViews.Log.Severity
import MediaViews.Main
import MediaViews.ObjectId
import MediaViews.Path
import MediaViews.Proofs.Calendar
import MediaViews.Proofs.Executor.Basic
import MediaViews.Proofs.Executor.Face
import MediaViews.Proofs.Executor.Labels
import MediaViews.Proofs.Executor.Pruning
import MediaViews.Proofs.Executor.Removal
import MediaViews.Proofs.Executor.Rendering
import MediaViews.Proofs.Executor.Reshaping
import MediaViews.Proofs.Executor.Sites
import MediaViews.Proofs.Executor.Stages
import MediaViews.Proofs.Executor.Steps
import MediaViews.Proofs.Executor.Value
import MediaViews.Proofs.Executor.Written
import MediaViews.Proofs.Expr.Rereading
import MediaViews.Proofs.Filter.Agreement
import MediaViews.Proofs.Filter.Asking
import MediaViews.Proofs.Filter.Bounds
import MediaViews.Proofs.Filter.Demand
import MediaViews.Proofs.Filter.Footprint
import MediaViews.Proofs.Filter.Judging
import MediaViews.Proofs.Filter.Matching
import MediaViews.Proofs.Filter.Meaning
import MediaViews.Proofs.Filter.Parts
import MediaViews.Proofs.Filter.Routing
import MediaViews.Proofs.Filter.SingleMatch
import MediaViews.Proofs.Filter.Survival
import MediaViews.Proofs.Filter.Targets
import MediaViews.Proofs.Identifier
import MediaViews.Proofs.Json.Finite
import MediaViews.Proofs.LabelTags.Counting
import MediaViews.Proofs.LabelTags.Filtering
import MediaViews.Proofs.LabelTags.Gathering
import MediaViews.Proofs.LabelTags.Pruning
import MediaViews.Proofs.Outcome
import MediaViews.Proofs.Path
import MediaViews.Proofs.Schema.StoragePath
import MediaViews.Proofs.Stage.Rereading
import MediaViews.Proofs.View.Contribution
import MediaViews.Proofs.View.Grouping
import MediaViews.Proofs.View.Pagination
import MediaViews.Proofs.View.Resubmission
import MediaViews.Proofs.View.Selection
import MediaViews.Schema.Catalog
import MediaViews.Schema.Field
import MediaViews.Schema.FieldKind
import MediaViews.Schema.LabelKind
import MediaViews.Schema.MediaType
import MediaViews.Schema.Skeleton
import MediaViews.SortedMap
import MediaViews.Stage.Basic
import MediaViews.Stage.Wire
import MediaViews.Text.Blank
import MediaViews.Text.Hex
import MediaViews.Text.Quoted
import MediaViews.Text.Uuid
import MediaViews.View.Basic
import MediaViews.View.Compiler
import MediaViews.View.Config
import MediaViews.View.Error
import MediaViews.View.Group
import MediaViews.View.Request
import MediaViews.View.Select
import MediaViews.View.Trace
import MediaViews.Proofs.Expr.Unambiguity
import MediaViews.Proofs.View.Phases
import MediaViews.Proofs.SortedMap
import MediaViews.Proofs.Json.Records
import MediaViews.Proofs.Json.Faults
import MediaViews.Proofs.View.Faults
import MediaViews.Proofs.View.Reordering
import MediaViews.Proofs.Filter.RoundTrip
import MediaViews.Proofs.View.RoundTrip
import MediaViews.Proofs.Schema.RoundTrip
import MediaViews.Proofs.Dataset.Catalog
import MediaViews.Proofs.Dataset.RoundTrip
import MediaViews.Proofs.Command.Lines
import MediaViews.Proofs.Filter.Depth
import MediaViews.Proofs.LabelTags.Sources
import MediaViews.Proofs.Double.Magnitude
import MediaViews.Proofs.Filter.Acceptance
import MediaViews.Proofs.Filter.Naming
import MediaViews.Proofs.Filter.Missing
import MediaViews.Proofs.Filter.Support
import MediaViews.Proofs.Filter.Dates
import MediaViews.Proofs.Filter.Emptying
import MediaViews.Proofs.Filter.Points
import MediaViews.Proofs.Executor.Assigning
import MediaViews.Proofs.Filter.Lists
import MediaViews.Proofs.Identifier.CanonicalForm
import MediaViews.Schema.Step
import MediaViews.Proofs.Schema.Catalog
import MediaViews.Proofs.Schema.LastWrite
import MediaViews.Proofs.Filter.LabelAttributes
import MediaViews.Proofs.View.Narrowing
import MediaViews.Proofs.Json.Members
import MediaViews.Proofs.Log.Record
import MediaViews.Proofs.Log.Writer
import MediaViews.Proofs.View.Logging
