import BytecodeFlow.Archive.Content
import BytecodeFlow.Archive.Inflate
import BytecodeFlow.Archive.Zip
import BytecodeFlow.Block.Leader
import BytecodeFlow.CommandLine.Invocation
import BytecodeFlow.CommandLine.Option
import BytecodeFlow.CommandLine.Plan
import BytecodeFlow.Files.Path
import BytecodeFlow.Files.Scan
import BytecodeFlow.Files.Tree
import BytecodeFlow.Graph.Procedure
import BytecodeFlow.Graph.Program
import BytecodeFlow.Graph.Render
import BytecodeFlow.Graph.Saved
import BytecodeFlow.Hierarchy.Entry
import BytecodeFlow.Hierarchy.Resolver
import BytecodeFlow.Hierarchy.Table
import BytecodeFlow.Journal.Coverage
import BytecodeFlow.Journal.Ledger
import BytecodeFlow.Journal.Message
import BytecodeFlow.Json.Reader
import BytecodeFlow.Json.Value
import BytecodeFlow.Json.Writer
import BytecodeFlow.Lowering.Build
import BytecodeFlow.Lowering.Method
import BytecodeFlow.Lowering.Treatment
import BytecodeFlow.Main
import BytecodeFlow.Metadata.Assembly
import BytecodeFlow.Metadata.Format
import BytecodeFlow.Metadata.Opcode
import BytecodeFlow.Metadata.Sources
import BytecodeFlow.Number.Binary64
import BytecodeFlow.Number.Decimal
import BytecodeFlow.Proofs.Block.Leading
import BytecodeFlow.Proofs.CommandLine.NamedPrinting
import BytecodeFlow.Proofs.CommandLine.Printing
import BytecodeFlow.Proofs.Execution.Blocks
import BytecodeFlow.Proofs.Execution.Converse
import BytecodeFlow.Proofs.Files.Listing
import BytecodeFlow.Proofs.Files.Scanning
import BytecodeFlow.Proofs.Graph.Building
import BytecodeFlow.Proofs.Graph.Definedness
import BytecodeFlow.Proofs.Graph.Descent
import BytecodeFlow.Proofs.Graph.Finishing
import BytecodeFlow.Proofs.Graph.Forks
import BytecodeFlow.Proofs.Graph.Growth
import BytecodeFlow.Proofs.Graph.Incoming
import BytecodeFlow.Proofs.Graph.Indegree
import BytecodeFlow.Proofs.Graph.Saving
import BytecodeFlow.Proofs.Hierarchy.Inheritance
import BytecodeFlow.Proofs.Hierarchy.Marking
import BytecodeFlow.Proofs.Hierarchy.Ordering
import BytecodeFlow.Proofs.Journal.Merging
import BytecodeFlow.Proofs.Journal.Replaying
import BytecodeFlow.Proofs.Json.Lexing
import BytecodeFlow.Proofs.Json.RoundTrip
import BytecodeFlow.Proofs.Lowering.Accounting
import BytecodeFlow.Proofs.Lowering.AssignedFirst
import BytecodeFlow.Proofs.Lowering.Branching
import BytecodeFlow.Proofs.Lowering.Budget
import BytecodeFlow.Proofs.Lowering.CatchWiring
import BytecodeFlow.Proofs.Lowering.Concatenation
import BytecodeFlow.Proofs.Lowering.FinallyRouting
import BytecodeFlow.Proofs.Lowering.Freshness
import BytecodeFlow.Proofs.Lowering.Guarding
import BytecodeFlow.Proofs.Lowering.HandlerCopies
import BytecodeFlow.Proofs.Lowering.IdenticalTops
import BytecodeFlow.Proofs.Lowering.IndexSafety
import BytecodeFlow.Proofs.Lowering.Preservation
import BytecodeFlow.Proofs.Lowering.Raising
import BytecodeFlow.Proofs.Lowering.Reachability
import BytecodeFlow.Proofs.Lowering.Scoping
import BytecodeFlow.Proofs.Lowering.Seeding
import BytecodeFlow.Proofs.Lowering.Sharing
import BytecodeFlow.Proofs.Lowering.SourceLines
import BytecodeFlow.Proofs.Lowering.Transfers
import BytecodeFlow.Proofs.Metadata.Restoring
import BytecodeFlow.Proofs.Region.Groups
import BytecodeFlow.Proofs.Region.Innermost
import BytecodeFlow.Proofs.Region.Layout
import BytecodeFlow.Proofs.Region.Nesting
import BytecodeFlow.Proofs.Region.Reading
import BytecodeFlow.Proofs.Region.Rearranging
import BytecodeFlow.Proofs.Region.Targets
import BytecodeFlow.Proofs.Session.LastLoad
import BytecodeFlow.Proofs.Target.TypeNames
import BytecodeFlow.Proofs.Walk.Additions
import BytecodeFlow.Proofs.Walk.CatchChains
import BytecodeFlow.Proofs.Walk.Contents
import BytecodeFlow.Proofs.Walk.Continuing
import BytecodeFlow.Proofs.Walk.Descent
import BytecodeFlow.Proofs.Walk.Entering
import BytecodeFlow.Proofs.Walk.Entries
import BytecodeFlow.Proofs.Walk.EntryPaths
import BytecodeFlow.Proofs.Walk.Handlers
import BytecodeFlow.Proofs.Walk.InRange
import BytecodeFlow.Proofs.Walk.LooseEnds
import BytecodeFlow.Proofs.Walk.Moves
import BytecodeFlow.Proofs.Walk.Performing
import BytecodeFlow.Proofs.Walk.Relabeling
import BytecodeFlow.Proofs.Walk.Resolution
import BytecodeFlow.Proofs.Walk.Spending
import BytecodeFlow.Proofs.Walk.Stamping
import BytecodeFlow.Proofs.Walk.Supply
import BytecodeFlow.Proofs.Walk.Turning
import BytecodeFlow.Proofs.Walk.Turns
import BytecodeFlow.Proofs.Walk.Underway
import BytecodeFlow.Proofs.Walk.Writing
import BytecodeFlow.Region.Lookup
import BytecodeFlow.Region.Table
import BytecodeFlow.Session
import BytecodeFlow.Target.Command
import BytecodeFlow.Target.Expr
import BytecodeFlow.Target.Typ
import BytecodeFlow.Text.Hidden
import BytecodeFlow.Text.Quoted
import BytecodeFlow.Text.Split
import BytecodeFlow.Walk.Handler
import BytecodeFlow.Walk.Operation
import BytecodeFlow.Walk.Routine
import BytecodeFlow.Walk.Run
import BytecodeFlow.Walk.State
import BytecodeFlow.Walk.Step
