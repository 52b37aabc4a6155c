import Cassowary.Literal
import Cassowary.Session
import Cassowary.Text
import Cassowary.Proofs.Optimality
import Cassowary.Proofs.Satisfiability
import Cassowary.Proofs.Upkeep
import Cassowary.Proofs.Rollback
import Cassowary.Proofs.Feasibility
import Cassowary.Proofs.Removals
import Cassowary.Proofs.Ownership
import Cassowary.Proofs.References
import Cassowary.Proofs.SoftConstraints
import Cassowary.Proofs.Resets
import Cassowary.Proofs.Connections
import Cassowary.Proofs.ExternalColumns
import Cassowary.Proofs.Progress
import Cassowary.Proofs.RoundTrips
import Cassowary.Proofs.EditReplacement
import Cassowary.Proofs.NearZeroCells
import Cassowary.Proofs.SoftTraces
import Cassowary.Proofs.ImpossibleErrors
import Cassowary.Proofs.NearTies
import Cassowary.Proofs.Cycling
import Cassowary.Proofs.Drift
import Cassowary.Proofs.FormulaMeaning
import Cassowary.Proofs.Conversions
import Cassowary.Proofs.StrengthTiers
import Cassowary.Proofs.Pruning
import Cassowary.Proofs.Resolving
import Cassowary.Proofs.FeasibleEvictions
import Cassowary.Proofs.Ledgers
