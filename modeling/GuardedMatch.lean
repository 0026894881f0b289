import GuardedMatch.Index
import GuardedMatch.Fault
import GuardedMatch.Span
import GuardedMatch.Name
import GuardedMatch.Syntax.Operator
import GuardedMatch.Syntax.Tree
import GuardedMatch.Syntax.Walk
import GuardedMatch.Syntax.Forest
import GuardedMatch.Syntax.Printer
import GuardedMatch.Bindings
import GuardedMatch.Constant
import GuardedMatch.Types.Basic
import GuardedMatch.Types.Pool
import GuardedMatch.Types.Subtyping
import GuardedMatch.Diagnostic.Basic
import GuardedMatch.Diagnostic.Queue
import GuardedMatch.Resolution.Scope
import GuardedMatch.Resolution.Table
import GuardedMatch.Resolution.Resolver
import GuardedMatch.Flow.LocalSet
import GuardedMatch.Flow.State
import GuardedMatch.Flow.Analysis
import GuardedMatch.Coverage.Relations
import GuardedMatch.Coverage.Switch
import GuardedMatch.Code.Stream
import GuardedMatch.CompileError
import GuardedMatch.Code.Plan
import GuardedMatch.Session
import GuardedMatch.Proofs.References
import GuardedMatch.Proofs.Values
import GuardedMatch.Proofs.Hierarchy
import GuardedMatch.Proofs.Data
import GuardedMatch.Proofs.Matrix
import GuardedMatch.Proofs.Exhaustive
import GuardedMatch.Proofs.Ensures
import GuardedMatch.Proofs.Scoping
import GuardedMatch.Proofs.Resolving
import GuardedMatch.Proofs.Missing
import GuardedMatch.Proofs.Matching
import GuardedMatch.Proofs.Machine
import GuardedMatch.Proofs.Emitting
import GuardedMatch.Proofs.Planning
import GuardedMatch.Proofs.Typing
import GuardedMatch.Proofs.Analysing
import GuardedMatch.Proofs.Branching
import GuardedMatch.Proofs.Assignment
import GuardedMatch.Proofs.Compiling
import GuardedMatch.Proofs.Expecting
import GuardedMatch.Proofs.Domination
import GuardedMatch.Proofs.Control
import GuardedMatch.Proofs.Tracing
import GuardedMatch.Proofs.Generating
import GuardedMatch.Proofs.Layout
import GuardedMatch.Proofs.Storing
import GuardedMatch.Proofs.Ranges
import GuardedMatch.Proofs.Recording
import GuardedMatch.Proofs.Tracking
import GuardedMatch.Proofs.LocalTable
import GuardedMatch.Proofs.Covering
import GuardedMatch.Proofs.Checking
import GuardedMatch.Proofs.Refusal
import GuardedMatch.Proofs.Unbroken
import GuardedMatch.Proofs.Sincerity
import GuardedMatch.Proofs.Filtering
import GuardedMatch.Proofs.Inquiry
import GuardedMatch.Proofs.Evaluating
import GuardedMatch.Proofs.Batch
import GuardedMatch.Proofs.Assembling
import GuardedMatch.Proofs.Forgetting
import GuardedMatch.Proofs.History
import GuardedMatch.Proofs.Flowing
import GuardedMatch.Proofs.Closing
import GuardedMatch.Proofs.Suspending
import GuardedMatch.Proofs.Folding
import GuardedMatch.Proofs.Gaining
import GuardedMatch.Proofs.Interning
import GuardedMatch.Proofs.Leaking
import GuardedMatch.Proofs.Skipping
import GuardedMatch.Proofs.Numbers
import GuardedMatch.Proofs.Owning
import GuardedMatch.Proofs.Attribution
import GuardedMatch.Proofs.Converting
import GuardedMatch.Proofs.Fitting
import GuardedMatch.Proofs.Climbing
import GuardedMatch.Proofs.Casting
import GuardedMatch.Proofs.Descending
import GuardedMatch.Proofs.Snapshots
import GuardedMatch.Proofs.Accounting
import GuardedMatch.Proofs.Changing
import GuardedMatch.Proofs.Reporting
import GuardedMatch.Proofs.Repeating
import GuardedMatch.Proofs.Tallying
import GuardedMatch.Proofs.Naming
import GuardedMatch.Proofs.Permitting
import GuardedMatch.Proofs.Registers
import GuardedMatch.Proofs.Binding
import GuardedMatch.Proofs.Printing
