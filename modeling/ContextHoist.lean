import ContextHoist.Excerpt
import ContextHoist.Main
import ContextHoist.Proofs.Contexts
import ContextHoist.Proofs.Outline
import ContextHoist.Proofs.Trace
import ContextHoist.Proofs.Account
import ContextHoist.Proofs.Simulation
import ContextHoist.Proofs.Suites
import ContextHoist.Proofs.Placement
import ContextHoist.Proofs.Hoisting
import ContextHoist.Proofs.Reads
import ContextHoist.Proofs.Redeclaration
import ContextHoist.Proofs.Accesses
import ContextHoist.Proofs.Callbacks
import ContextHoist.Proofs.Settled
import ContextHoist.Proofs.Stability
import ContextHoist.Proofs.Losses
import ContextHoist.Proofs.Decorators
import ContextHoist.Proofs.Rerun
import ContextHoist.Proofs.Resolution
import ContextHoist.Proofs.Scoping
import ContextHoist.Proofs.SharedScopes
import ContextHoist.Proofs.Items
import ContextHoist.Proofs.References
import ContextHoist.Proofs.Capture
import ContextHoist.Proofs.Deletion
import ContextHoist.Proofs.Legality
import ContextHoist.Proofs.Leftovers
import ContextHoist.Proofs.Files
import ContextHoist.Proofs.Batches
import ContextHoist.Proofs.Paths
import ContextHoist.Proofs.Walks
import ContextHoist.Proofs.Census
import ContextHoist.Proofs.Conversions
import ContextHoist.Proofs.Variables
import ContextHoist.Proofs.Assignments
import ContextHoist.Proofs.Receivers
import ContextHoist.Proofs.Locals
import ContextHoist.Proofs.OuterNames
import ContextHoist.Proofs.Literals
import ContextHoist.Proofs.Quoting
import ContextHoist.Proofs.Substitution
import ContextHoist.Proofs.Enumeration
import ContextHoist.Proofs.Forest
import ContextHoist.Proofs.ScopeStack
import ContextHoist.Proofs.BoundNames
import ContextHoist.Proofs.Sorts
import ContextHoist.Proofs.Reading.Moves
import ContextHoist.Proofs.Reading.Types
import ContextHoist.Proofs.Reading.Functions
import ContextHoist.Proofs.Reading.Expressions
import ContextHoist.Proofs.Reading.Statements
import ContextHoist.Proofs.Reading.Files
