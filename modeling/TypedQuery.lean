import TypedQuery.Coercion.Arguments
import TypedQuery.Coercion.Value
import TypedQuery.Coercion.Variables
import TypedQuery.Document.Basic
import TypedQuery.Document.Grammar
import TypedQuery.Document.Literal
import TypedQuery.Document.Token
import TypedQuery.Error.Failure
import TypedQuery.Error.Rejection
import TypedQuery.Execution.Basic
import TypedQuery.Execution.Collection
import TypedQuery.Execution.Completion
import TypedQuery.Execution.Config
import TypedQuery.Execution.Course
import TypedQuery.Execution.Crew
import TypedQuery.Execution.Trace
import TypedQuery.Json.Basic
import TypedQuery.Json.Compact
import TypedQuery.Json.Excerpt
import TypedQuery.Json.Number
import TypedQuery.Json.Reading
import TypedQuery.Keyed
import TypedQuery.Location
import TypedQuery.Number.Binary64
import TypedQuery.Number.Decimal
import TypedQuery.Path
import TypedQuery.Resolver.Basic
import TypedQuery.Resolver.Context
import TypedQuery.Resolver.Scripted
import TypedQuery.Resolver.Typed
import TypedQuery.Response
import TypedQuery.Schema.Basic
import TypedQuery.Schema.Blueprint
import TypedQuery.Schema.BuiltIn
import TypedQuery.Schema.Definition
import TypedQuery.Schema.Root
import TypedQuery.Schema.Scripted
import TypedQuery.Text.Blank
import TypedQuery.Text.Hidden
import TypedQuery.Text.Lines
import TypedQuery.TypeExpr
import TypedQuery.Validation.Basic
import TypedQuery.Validation.Cycle
import TypedQuery.Validation.Fault
import TypedQuery.Validation.Findings
import TypedQuery.Validation.Reach
import TypedQuery.Validation.Usage
import TypedQuery.Validation.Value
import TypedQuery.Validation.Visit
import TypedQuery.Proofs.Error.RoundTrip
import TypedQuery.Proofs.Execution.Ending
import TypedQuery.Proofs.Execution.Outline
import TypedQuery.Proofs.Execution.Outlining
import TypedQuery.Proofs.Execution.Run
import TypedQuery.Proofs.Execution.Collecting
import TypedQuery.Proofs.Execution.Conformance
import TypedQuery.Proofs.Execution.Descent
import TypedQuery.Proofs.Execution.Nesting
import TypedQuery.Proofs.Execution.NullPropagation
import TypedQuery.Proofs.Execution.Nulls
import TypedQuery.Proofs.Execution.Timing
import TypedQuery.Proofs.Coercion.Passing
import TypedQuery.Proofs.Validation.Cycles
import TypedQuery.Proofs.Validation.Resolvers
import TypedQuery.Proofs.Validation.Visit
import TypedQuery.Proofs.Execution.Admission
import TypedQuery.Proofs.Execution.Isolation
import TypedQuery.Proofs.Execution.Answering
import TypedQuery.Proofs.Execution.Order
import TypedQuery.Proofs.Execution.Events
import TypedQuery.Proofs.Execution.Calls
import TypedQuery.Proofs.Execution.Serial
import TypedQuery.Proofs.Execution.Inlining
import TypedQuery.Proofs.Execution.Repetition
import TypedQuery.Proofs.Execution.Termination
import TypedQuery.Proofs.Execution.Expansion
import TypedQuery.Proofs.Coercion.Arguments
import TypedQuery.Proofs.Coercion.Variables
import TypedQuery.Proofs.Coercion.Defaults
import TypedQuery.Proofs.Coercion.Literals
import TypedQuery.Proofs.Coercion.Marks
import TypedQuery.Proofs.Execution.Supplying
import TypedQuery.Proofs.Schema.BuiltIn
import TypedQuery.Proofs.Schema.Consistency
import TypedQuery.Proofs.Schema.Membership
import TypedQuery.Proofs.Schema.WellFormed
import TypedQuery.Proofs.Schema.Overlap
import TypedQuery.Proofs.Schema.Subtyping
import TypedQuery.Proofs.Execution.Blame
import TypedQuery.Proofs.Validation.Reach
import TypedQuery.Proofs.Validation.Reachable
import TypedQuery.Proofs.Validation.Reordering
import TypedQuery.Proofs.Execution.Reordering
import TypedQuery.Proofs.Coercion.Subtypes
import TypedQuery.Proofs.Validation.Mentioned
import TypedQuery.Proofs.Validation.Faults
import TypedQuery.Proofs.Validation.Usage
import TypedQuery.Proofs.Lists
import TypedQuery.Proofs.Execution.Steps
import TypedQuery.Proofs.Execution.Windows
import TypedQuery.Proofs.Execution.Spots
import TypedQuery.Proofs.Execution.Gathering
import TypedQuery.Proofs.Execution.Tracking
import TypedQuery.Proofs.Execution.Fragments
import TypedQuery.Proofs.Execution.Matching
import TypedQuery.Proofs.Execution.Resemblance
import TypedQuery.Proofs.Execution.Rewriting
import TypedQuery.Proofs.Execution.Refining
import TypedQuery.Proofs.Execution.Reduction
import TypedQuery.Proofs.Execution.Splitting
import TypedQuery.Proofs.Execution.Concurrency
