import StateWalk.Assertion
import StateWalk.EdgeList
import StateWalk.Machine.Assign
import StateWalk.Machine.Basic
import StateWalk.Model.Run
import StateWalk.Number.Decimal
import StateWalk.Proofs.Search.SimplePlans
import StateWalk.Proofs.Search.Soundness
import StateWalk.Proofs.Search.Agreement
import StateWalk.Proofs.Search.Responses
import StateWalk.Proofs.Worklist
import StateWalk.Proofs.Search.Limit
import StateWalk.Proofs.Run.Replay
import StateWalk.Proofs.Plan.Maximal
import StateWalk.Proofs.Run.Coverage
import StateWalk.Proofs.Run.Deduplication
import StateWalk.Proofs.Model.Criteria
import StateWalk.Proofs.Run.AllStates
import StateWalk.Model.History
import StateWalk.Proofs.Run.History
import StateWalk.Proofs.Machine.Construction
import StateWalk.Proofs.Machine.Active
import StateWalk.Proofs.Machine.Validity
import StateWalk.Proofs.Search.FiniteNodes
import StateWalk.Proofs.Search.Representatives
import StateWalk.Proofs.Model.Transitions
import StateWalk.Proofs.Canonical.Order
import StateWalk.Proofs.Value.Shuffle
import StateWalk.Proofs.Value.Order
import StateWalk.Proofs.Canonical.Reading
import StateWalk.Proofs.Value.PlainData
import StateWalk.Proofs.Plan.Kept
import StateWalk.Proofs.Search.Ties
import StateWalk.Proofs.Model.Settings
import StateWalk.Proofs.Machine.Traversal
import StateWalk.Proofs.Machine.ActivePaths
import StateWalk.Proofs.Machine.Targets
import StateWalk.Proofs.Machine.Choice
import StateWalk.Proofs.Machine.Enumeration
import StateWalk.Proofs.Model.CompoundKeys
import StateWalk.Proofs.Run.StateTests
import StateWalk.Proofs.Event.Identity
import StateWalk.Proofs.Value.TaggedMappings
import StateWalk.Proofs.Value.NormalForm
import StateWalk.Proofs.Machine.Ids
import StateWalk.Proofs.Run.Plans
import StateWalk.Proofs.Machine.ValuePaths
