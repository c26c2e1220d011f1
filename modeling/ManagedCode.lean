import ManagedCode.Body.Writer
import ManagedCode.Builder.Typed
import ManagedCode.Graph.Resolution
import ManagedCode.Proofs.Stack.Compatibility
import ManagedCode.Proofs.Stack.Application
import ManagedCode.Proofs.Stack.Growth
import ManagedCode.Proofs.Stack.Substitution
import ManagedCode.Proofs.Builder.Draft
import ManagedCode.Proofs.Builder.Run
import ManagedCode.Proofs.Flow.Regions
import ManagedCode.Proofs.Builder.Session
import ManagedCode.Proofs.Builder.Steps
import ManagedCode.Proofs.Builder.Boundary
import ManagedCode.Proofs.Body.Writer
import ManagedCode.Proofs.Builder.Layout
import ManagedCode.Proofs.Builder.Typing
import ManagedCode.Proofs.Builder.Consistency
import ManagedCode.Proofs.Body.Offsets
import ManagedCode.Proofs.Builder.Replay
import ManagedCode.Proofs.Builder.Books
import ManagedCode.Proofs.Builder.Refusal
import ManagedCode.Proofs.Builder.History
import ManagedCode.Proofs.Builder.Nesting
import ManagedCode.Proofs.Builder.Clauses
import ManagedCode.Proofs.Builder.Stream
import ManagedCode.Proofs.Builder.Entry
import ManagedCode.Proofs.Builder.Past
import ManagedCode.Proofs.Builder.DeadCode
import ManagedCode.Proofs.Body.Unambiguous
import ManagedCode.Proofs.Graph.Arrays
import ManagedCode.Proofs.Graph.Decision
import ManagedCode.Proofs.Flow.InPlace
import ManagedCode.Proofs.Flow.Grammar
import ManagedCode.Proofs.Flow.Merging
import ManagedCode.Proofs.Builder.Retry
import ManagedCode.Proofs.Builder.Depth
import ManagedCode.Proofs.Stack.Storage
import ManagedCode.Proofs.Stack.Locality
import ManagedCode.Proofs.Graph.Evolution
import ManagedCode.Proofs.Stack.Evolution
import ManagedCode.Proofs.Graph.Members
import ManagedCode.Proofs.Builder.Dispatch
import ManagedCode.Proofs.Graph.Identity
import ManagedCode.Proofs.Body.Rejection
import ManagedCode.Proofs.Builder.Interning
import ManagedCode.Proofs.Stack.Boxing
import ManagedCode.Proofs.Body.Guards
import ManagedCode.Proofs.Stack.Arithmetic
