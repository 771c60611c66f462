import Clearance.Grant.Membership
import Clearance.Predicate.Evaluation
import Clearance.Predicate.Export
import Clearance.Proofs.Acceptance
import Clearance.Proofs.Addressing
import Clearance.Proofs.Agreement
import Clearance.Proofs.Assembly
import Clearance.Proofs.ContextDeclaration
import Clearance.Proofs.DeclarationContent
import Clearance.Proofs.DeclarationGrammar
import Clearance.Proofs.DeclarationReading
import Clearance.Proofs.Defects
import Clearance.Proofs.Distributivity
import Clearance.Proofs.Duality
import Clearance.Proofs.Ends
import Clearance.Proofs.Entries
import Clearance.Proofs.Extension
import Clearance.Proofs.IndexHistory
import Clearance.Proofs.LeafLookup
import Clearance.Proofs.LineEnds
import Clearance.Proofs.LoadFailures
import Clearance.Proofs.Loading
import Clearance.Proofs.Monotonicity
import Clearance.Proofs.Negation
import Clearance.Proofs.Noninterference
import Clearance.Proofs.NormalForm
import Clearance.Proofs.Normalisation
import Clearance.Proofs.OrderFree
import Clearance.Proofs.PathGrammar
import Clearance.Proofs.Permission
import Clearance.Proofs.Places
import Clearance.Proofs.Positions
import Clearance.Proofs.ReadOnce
import Clearance.Proofs.Reading
import Clearance.Proofs.Rearrangement
import Clearance.Proofs.Replay
import Clearance.Proofs.Restructuring
import Clearance.Proofs.Scopes
import Clearance.Proofs.Snapshot
import Clearance.Proofs.StackMachine
import Clearance.Proofs.Tour
import Clearance.Proofs.Turns
import Clearance.Proofs.Visiting
import Clearance.Showcase
import Clearance.Storage.Load
import Clearance.Value.Assembly
