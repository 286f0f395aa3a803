import GraphQL.Json.Text
import GraphQL.Middleware.Chains
import GraphQL.Proofs.Coercion.ConformingArguments
import GraphQL.Proofs.Coercion.ConformingLiterals
import GraphQL.Proofs.Coercion.ConformingValues
import GraphQL.Proofs.Coercion.EndingCoercions
import GraphQL.Proofs.Coercion.EnumNames
import GraphQL.Proofs.Coercion.InputFaults
import GraphQL.Proofs.Coercion.InputTypes
import GraphQL.Proofs.Coercion.LiteralAsVariable
import GraphQL.Proofs.Coercion.RecurringDefaults
import GraphQL.Proofs.Coercion.RejectedParts
import GraphQL.Proofs.Coercion.TrackedPlaces
import GraphQL.Proofs.Coercion.VariableErrors
import GraphQL.Proofs.Coroutine.Endings
import GraphQL.Proofs.Coroutine.Lockstep
import GraphQL.Proofs.Coroutine.Polls
import GraphQL.Proofs.Coroutine.Schedules
import GraphQL.Proofs.Document.Inlining
import GraphQL.Proofs.Document.Names
import GraphQL.Proofs.Execution.Accounting
import GraphQL.Proofs.Execution.AgreeingTrees
import GraphQL.Proofs.Execution.Answer
import GraphQL.Proofs.Execution.BadRequests
import GraphQL.Proofs.Execution.CallOrder
import GraphQL.Proofs.Execution.Collection
import GraphQL.Proofs.Execution.CompleteCollection
import GraphQL.Proofs.Execution.Conformance
import GraphQL.Proofs.Execution.CriticalPath
import GraphQL.Proofs.Execution.DocumentOrder
import GraphQL.Proofs.Execution.EndingExecutions
import GraphQL.Proofs.Execution.EnumRoundTrips
import GraphQL.Proofs.Execution.ErrorConservation
import GraphQL.Proofs.Execution.EventPlaces
import GraphQL.Proofs.Execution.FieldFailures
import GraphQL.Proofs.Execution.Growth
import GraphQL.Proofs.Execution.InlinedCollection
import GraphQL.Proofs.Execution.InlinedFragments
import GraphQL.Proofs.Execution.Isolation
import GraphQL.Proofs.Execution.Levels
import GraphQL.Proofs.Execution.NullPropagation
import GraphQL.Proofs.Execution.Nulls
import GraphQL.Proofs.Execution.ReachedFields
import GraphQL.Proofs.Execution.Realization
import GraphQL.Proofs.Execution.RelatedCompletions
import GraphQL.Proofs.Execution.RelatedExecutions
import GraphQL.Proofs.Execution.RelatedRuns
import GraphQL.Proofs.Execution.RepeatedNodes
import GraphQL.Proofs.Execution.Representations
import GraphQL.Proofs.Execution.SameRequests
import GraphQL.Proofs.Execution.Schedules
import GraphQL.Proofs.Execution.Scheduling
import GraphQL.Proofs.Execution.SerialMutations
import GraphQL.Proofs.Execution.SettledCalls
import GraphQL.Proofs.Execution.Settlements
import GraphQL.Proofs.Execution.Traversal
import GraphQL.Proofs.Execution.UpToLocations
import GraphQL.Proofs.Execution.Yields
import GraphQL.Proofs.Middleware.ComposedResolvers
import GraphQL.Proofs.Middleware.Lifetimes
import GraphQL.Proofs.Middleware.Nesting
import GraphQL.Proofs.Middleware.SharedChains
import GraphQL.Proofs.PubSub.Delivery
import GraphQL.Proofs.Resolver.FailingPanics
import GraphQL.Proofs.Resolver.IgnoringSelections
import GraphQL.Proofs.Resolver.RelatedCallbacks
import GraphQL.Proofs.Scalar.FixedPoints
import GraphQL.Proofs.Scalar.Timestamps
import GraphQL.Proofs.Schema.AttachedCallbacks
import GraphQL.Proofs.Schema.BuilderCalls
import GraphQL.Proofs.Schema.Integrity
import GraphQL.Proofs.Schema.InvertibleEnums
import GraphQL.Proofs.Schema.PossibleTypes
import GraphQL.Proofs.Schema.Registrations
import GraphQL.Proofs.Schema.WellFormed
import GraphQL.Proofs.Schema.WrappedResolvers
import GraphQL.Proofs.Subscription.CaughtPanics
import GraphQL.Proofs.Subscription.Panics
import GraphQL.Proofs.Subscription.PointwiseImage
import GraphQL.Proofs.Subscription.RelatedStreams
import GraphQL.Proofs.Subscription.RepeatedKeys
import GraphQL.Proofs.Subscription.SameAnswers
import GraphQL.Proofs.Subscription.SameStreams
import GraphQL.Proofs.Subscription.TransparentWrappers
import GraphQL.Proofs.Text.Trimming
import GraphQL.Proofs.TypeRef.Parsing
import GraphQL.Proofs.TypeRef.Spelling
import GraphQL.Proofs.Value.Equality
import GraphQL.Proofs.Value.Representations
import GraphQL.Proofs.WebSocket.PrivateCauses
import GraphQL.Proofs.WebSocket.StartProtocol
import GraphQL.Proofs.Wrapping.Bits
import GraphQL.Proofs.Wrapping.Pairs
import GraphQL.Proofs.Wrapping.RawWords
import GraphQL.Schema.Builder
import GraphQL.WebSocket.Session
