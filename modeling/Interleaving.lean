import Interleaving.Ascending
import Interleaving.Table
import Interleaving.Transition
import Interleaving.Error
import Interleaving.Actor
import Interleaving.Mailbox
import Interleaving.State
import Interleaving.Validation
import Interleaving.Blueprint
import Interleaving.Trace
import Interleaving.Exploration
import Interleaving.Demonstration
import Interleaving.Json.Number
import Interleaving.Json.Quoted
import Interleaving.Json.Token
import Interleaving.Json.Value
import Interleaving.Json.Shape
import Interleaving.Serial
import Interleaving.Main
import Interleaving.Proofs.Construction
import Interleaving.Proofs.History
import Interleaving.Proofs.Admissibility
import Interleaving.Proofs.Replay
import Interleaving.Proofs.Swaps
import Interleaving.Proofs.Reordering
import Interleaving.Proofs.Filing
import Interleaving.Proofs.Step
import Interleaving.Proofs.Frontier
import Interleaving.Proofs.Commutation
import Interleaving.Proofs.Budget
import Interleaving.Proofs.Enumeration
import Interleaving.Proofs.Classes
import Interleaving.Proofs.Matching
import Interleaving.Proofs.Determinism
import Interleaving.Proofs.Readiness
import Interleaving.Proofs.Division
import Interleaving.Proofs.Comparison
import Interleaving.Proofs.Failure
import Interleaving.Proofs.Unbounded
import Interleaving.Proofs.Json.Cutting
import Interleaving.Proofs.Json.Reading
import Interleaving.Proofs.Json.Shapes
import Interleaving.Proofs.Serial.Range
import Interleaving.Proofs.Serial.RoundTrip
import Interleaving.Proofs.Placement
import Interleaving.Proofs.Queueing
import Interleaving.Proofs.Growth
import Interleaving.Proofs.Diagnosis
import Interleaving.Proofs.Recording
import Interleaving.Proofs.Drafting
import Interleaving.Proofs.Listing
import Interleaving.Proofs.Reporting
import Interleaving.Proofs.Encounter
import Interleaving.Proofs.Printing
