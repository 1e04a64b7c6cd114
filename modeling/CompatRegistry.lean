import CompatRegistry.Foundation.Bytes
import CompatRegistry.Foundation.Enumerated
import CompatRegistry.Foundation.SortedMap
import CompatRegistry.Foundation.DepthFirst
import CompatRegistry.Foundation.UnorderedMap
import CompatRegistry.Foundation.Aging
import CompatRegistry.Foundation.KeyedCache
import CompatRegistry.Sha256
import CompatRegistry.UuidText
import CompatRegistry.Foundation.Fips180
import CompatRegistry.Foundation.Json
import CompatRegistry.Foundation.DoubleText
import CompatRegistry.Sha256Standard
import CompatRegistry.Canon.RoundTrip
import CompatRegistry.Canon.Overread
import CompatRegistry.Canon.Order
import CompatRegistry.Canon.Json
import CompatRegistry.Canon.Puts
import CompatRegistry.Capability
import CompatRegistry.CapabilityIdentity
import CompatRegistry.FieldEdit
import CompatRegistry.Rule
import CompatRegistry.Operators
import CompatRegistry.Foundation.OrderKey
import CompatRegistry.Version
import CompatRegistry.RuleEval
import CompatRegistry.Decision
import CompatRegistry.EvidenceIdentity
import CompatRegistry.Registry.Dependencies
import CompatRegistry.Registry.Operations
import CompatRegistry.Registry.Invariant
import CompatRegistry.Registry.Effect
import CompatRegistry.Registry.CycleRejection
import CompatRegistry.Registry.Evaluate
import CompatRegistry.Registry.Snapshot
import CompatRegistry.Registry.Recover
import CompatRegistry.Registry.RoundTrip
import CompatRegistry.Registry.Size
import CompatRegistry.Registry.Recovery
import CompatRegistry.Registry.Reachable
import CompatRegistry.Registry.Recoverable
import CompatRegistry.Registry.PairSpec
import CompatRegistry.Foundation.Splits
import CompatRegistry.Registry.MissingEvidence
import CompatRegistry.Registry.Exact
import CompatRegistry.Registry.Derived
import CompatRegistry.Registry.DecisionId
import CompatRegistry.Registry.Runs
import CompatRegistry.Registry.Replay
import CompatRegistry.Registry.Graph
import CompatRegistry.Registry.Histories
import CompatRegistry.Registry.RecoveredEvaluation
import CompatRegistry.RuleReturns
import CompatRegistry.Net.Coordinator
import CompatRegistry.Net.NoEscape
import CompatRegistry.Net.Handled
import CompatRegistry.Net.Authority
import CompatRegistry.Net.Scope
import CompatRegistry.Registry.Validity
import CompatRegistry.RuleOutcome
import CompatRegistry.RuleOrder
import CompatRegistry.RuleEvidence
import CompatRegistry.Net.WireRule
import CompatRegistry.Foundation.EdgeChange
import CompatRegistry.Registry.CycleExact
import CompatRegistry.Registry.Footprint
import CompatRegistry.Registry.RuleGenerations
import CompatRegistry.Registry.Counterfactual
import CompatRegistry.Foundation.Stream
import CompatRegistry.Foundation.ShiftRegister
import CompatRegistry.Net.Frame
import CompatRegistry.Net.Corruption
import CompatRegistry.Net.Lengths
import CompatRegistry.Registry.StaleEvidence
import CompatRegistry.Net.WireEvidence
import CompatRegistry.Foundation.Worklist
import CompatRegistry.Registry.Propagation
import CompatRegistry.Registry.AnyOrder
import CompatRegistry.ProfileTypes
import CompatRegistry.ProfileRoundTrip
import CompatRegistry.Canon.Lengths
import CompatRegistry.Foundation.Pieces
import CompatRegistry.Foundation.Along
import CompatRegistry.Registry.Resume
import CompatRegistry.Net.Socket
import CompatRegistry.Net.Server
import CompatRegistry.Net.Client
import CompatRegistry.Net.Party
import CompatRegistry.Net.System
import CompatRegistry.Net.Ledger
import CompatRegistry.Net.Restart
import CompatRegistry.Registry.Matrix
import CompatRegistry.Registry.Storage
import CompatRegistry.Registry.Recall
import CompatRegistry.Registry.Interference
import CompatRegistry.Registry.MoreEvidence
import CompatRegistry.Registry.Erasure
import CompatRegistry.Registry.Precedence
import CompatRegistry.Net.Answers
import CompatRegistry.Net.Completed
import CompatRegistry.Registry.Explanation
