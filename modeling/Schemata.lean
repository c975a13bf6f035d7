import Schemata.Action
import Schemata.Asynchrony
import Schemata.Binary64
import Schemata.Build
import Schemata.Compilation.Parse
import Schemata.Compilation.Serialize
import Schemata.Compilation.Traversal
import Schemata.Decimal.Layout
import Schemata.Decimal.Shortest
import Schemata.Entries
import Schemata.Error
import Schemata.Execution.Direct
import Schemata.Execution.Engine
import Schemata.Execution.Machine
import Schemata.Execution.Polling
import Schemata.Execution.Staged
import Schemata.Json.Cursor
import Schemata.Json.Printer
import Schemata.Json.Reader
import Schemata.Json.Skipping
import Schemata.Literal
import Schemata.Liveness
import Schemata.Operation
import Schemata.Operation.Description
import Schemata.Path
import Schemata.Pattern
import Schemata.Pattern.Reader
import Schemata.Proofs.Agreement
import Schemata.Proofs.AsyncFlag
import Schemata.Proofs.Blame
import Schemata.Proofs.Children
import Schemata.Proofs.Compilation
import Schemata.Proofs.Computation
import Schemata.Proofs.Determinism
import Schemata.Proofs.DirectErrors
import Schemata.Proofs.DirectMeaning
import Schemata.Proofs.DiscriminatedUnion
import Schemata.Proofs.Discrimination
import Schemata.Proofs.ErrorPlaces
import Schemata.Proofs.Graph
import Schemata.Proofs.History
import Schemata.Proofs.Inhabitance
import Schemata.Proofs.Later
import Schemata.Proofs.Literals
import Schemata.Proofs.Lookup
import Schemata.Proofs.Meaning
import Schemata.Proofs.Plan
import Schemata.Proofs.Purity
import Schemata.Proofs.Reading
import Schemata.Proofs.Refusal
import Schemata.Proofs.RoundTrip
import Schemata.Proofs.StagedErrors
import Schemata.Proofs.StagedMeaning
import Schemata.Proofs.Steadiness
import Schemata.Proofs.Synchronous
import Schemata.Proofs.TaskMeaning
import Schemata.Proofs.UnionChoice
import Schemata.Proofs.UnionTrial
import Schemata.Proofs.Walk
import Schemata.Refinement
import Schemata.Scalar
import Schemata.Schema
import Schemata.Schema.Description
import Schemata.Schema.Equality
import Schemata.Schema.Name
import Schemata.Schema.Source
import Schemata.Session.Building
import Schemata.Session.Command
import Schemata.Session.Evaluation
import Schemata.Session.Expression
import Schemata.Session.Functions
import Schemata.Text.Classes
import Schemata.Text.Quoted
import Schemata.Text.Ranges
import Schemata.Text.Unprintable
import Schemata.Timestamp
import Schemata.Typed.Decode
import Schemata.Typed.Read
import Schemata.Typed.Shape
import Schemata.Union.Tag
import Schemata.Value
import Schemata.World
import Schemata.Proofs.Calls
import Schemata.Proofs.FreeOfAsync
import Schemata.Proofs.UnexpectedAsync
import Schemata.Proofs.Caching
import Schemata.Proofs.Guardedness
import Schemata.Proofs.Termination
import Schemata.Proofs.SideBySide
import Schemata.Proofs.Shortcuts
import Schemata.Proofs.PlainSerialization
import Schemata.Proofs.Simulation
import Schemata.Proofs.StagedSimulation
import Schemata.Proofs.MoreFuel
import Schemata.Proofs.Conclusion
import Schemata.Proofs.Waiting
import Schemata.Proofs.Likeness
import Schemata.Proofs.LikeOperations
import Schemata.Proofs.Resemblance
import Schemata.Proofs.Correspondence
import Schemata.Proofs.Timeless
import Schemata.Proofs.Schedules
import Schemata.Proofs.Composites
import Schemata.Proofs.CompositeLaw
import Schemata.Proofs.Scheduling
import Schemata.Proofs.Reconfiguration
import Schemata.Proofs.Holding
import Schemata.Proofs.EarlyQueries
import Schemata.Proofs.Annotation
import Schemata.Proofs.Metadata
import Schemata.Proofs.ObjectFields
import Schemata.Proofs.UndiscriminatedUnion
import Schemata.Proofs.StagedUnion
import Schemata.Proofs.StagedTermination
import Schemata.Proofs.AlikeResults
import Schemata.Proofs.StructuralEquality
import Schemata.Proofs.Reentrance
import Schemata.Proofs.KeptAnswers
import Schemata.Proofs.EffectSteps
import Schemata.Proofs.WrapperChains
import Schemata.Proofs.ValueShapes
import Schemata.Proofs.ValueSchemas
import Schemata.Proofs.Reordering
import Schemata.Proofs.KeyOrder
import Schemata.Proofs.Pointers
import Schemata.Proofs.EqualSchemas
import Schemata.Proofs.Bodies
import Schemata.Proofs.Futures
import Schemata.Proofs.FutureErasure
import Schemata.Proofs.FutureLedger
import Schemata.Proofs.ShortestDecimals
import Schemata.Proofs.NumberTexts
import Schemata.Proofs.Delimited
import Schemata.Proofs.LiteralTexts
import Schemata.Proofs.SourceTexts
import Schemata.Proofs.ExcessKeys
import Schemata.Literal.Hashing
import Schemata.Proofs.TagIndex
