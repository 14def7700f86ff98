import Provenance.Analysis.Result
import Provenance.Interchange.Load
import Provenance.Interchange.ReadFrames
import Provenance.Interchange.WriteFrames
import Provenance.Qualifier.Imposition
import Provenance.Qualifier.Nullness
import Provenance.Proofs.Agreement
import Provenance.Proofs.Simulation
import Provenance.Proofs.Locals
import Provenance.Proofs.Tracking
import Provenance.Proofs.Within
import Provenance.Proofs.Joins
import Provenance.Proofs.Runs
import Provenance.Proofs.Edges
import Provenance.Proofs.Analyses
import Provenance.Proofs.PathSoundness
import Provenance.Proofs.Stability
import Provenance.Proofs.Overlap
import Provenance.Proofs.Replacement
import Provenance.Proofs.OtherDimensions
import Provenance.Proofs.LeastSolution
import Provenance.Proofs.Lockstep
import Provenance.Proofs.Alike
import Provenance.Proofs.AlikeAnalyses
import Provenance.Proofs.Erasure
import Provenance.Proofs.Termination
import Provenance.Proofs.Created
import Provenance.Proofs.Room
import Provenance.Proofs.Passes
import Provenance.Proofs.Corrections
import Provenance.Proofs.Independence
import Provenance.Proofs.Reachability
import Provenance.Proofs.StoredValues
import Provenance.Proofs.Justification
import Provenance.Proofs.Origins
import Provenance.Proofs.Grammar
import Provenance.Proofs.Outcomes
import Provenance.Proofs.WellFormed
import Provenance.Proofs.SafeRuns
import Provenance.Proofs.BareErrors
import Provenance.Proofs.Loading
import Provenance.Proofs.Failures
import Provenance.Proofs.Directions
import Provenance.Proofs.EdgeOrder
import Provenance.Proofs.Shuffles
import Provenance.Proofs.ImposedImage
import Provenance.Proofs.Arrivals
import Provenance.Proofs.NarrowFrames
import Provenance.Proofs.ShownFrames
import Provenance.Proofs.PrintedText
import Provenance.Proofs.ReadBack
import Provenance.Proofs.Serialization
import Provenance.Proofs.StackEffects
import Provenance.Proofs.JoinLaws
import Provenance.Proofs.Forks
import Provenance.Proofs.UnsetLocals
import Provenance.Proofs.DeeperStacks
import Provenance.Proofs.Queries
import Provenance.Proofs.EntryLayout
import Provenance.Proofs.Overwriting
import Provenance.Proofs.LastVisits
import Provenance.Proofs.Onward
import Provenance.Proofs.FactLens
import Provenance.Proofs.SettledFacts
import Provenance.Proofs.VisitBound
