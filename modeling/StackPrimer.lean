import StackPrimer.Command.Store
import StackPrimer.Main
import StackPrimer.Proofs.Discipline.Run
import StackPrimer.Proofs.OnePass.Program
import StackPrimer.Proofs.Simulation.Program
import StackPrimer.Proofs.Failure.Announced
import StackPrimer.Proofs.Failure.Statement
import StackPrimer.Proofs.Failure.Program
import StackPrimer.Proofs.Failure.SourceText
import StackPrimer.Proofs.Acceptance.Expression
import StackPrimer.Proofs.Acceptance.Statement
import StackPrimer.Proofs.Acceptance.Program
import StackPrimer.Proofs.Acceptance.Rendering
import StackPrimer.Proofs.Prefix.Locality
import StackPrimer.Proofs.Prefix.Viable
import StackPrimer.Proofs.Prefix.Statement
import StackPrimer.Proofs.Prefix.Program
import StackPrimer.Proofs.Confinement.Piece
import StackPrimer.Proofs.Confinement.Statement
import StackPrimer.Proofs.Confinement.Program
import StackPrimer.Proofs.Machine.Frames
import StackPrimer.Proofs.Machine.Containment
import StackPrimer.Proofs.Listing.Program
import StackPrimer.Proofs.Scanning.Tiling
import StackPrimer.Proofs.Scanning.Comment
import StackPrimer.Proofs.Scanning.Respelling
import StackPrimer.Proofs.InStep.BlankLine
import StackPrimer.Proofs.InStep.LineEnding
import StackPrimer.Proofs.InStep.Indentation
import StackPrimer.Proofs.InStep.Renaming
import StackPrimer.Proofs.Naming.Refinement
import StackPrimer.Proofs.Relocation.Program
import StackPrimer.Proofs.Evaluation.Expression
import StackPrimer.Proofs.Command.Contract
import StackPrimer.Proofs.Reserving.Run
import StackPrimer.Proofs.Log.History
import StackPrimer.Proofs.Naming.Overlay
import StackPrimer.Proofs.Machine.Reading
import StackPrimer.Proofs.Command.Verbosity
