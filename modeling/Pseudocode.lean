import Pseudocode.Main
import Pseudocode.Settings.Given
import Pseudocode.Proofs.Unreachable
import Pseudocode.Proofs.StoreTyping
import Pseudocode.Proofs.TypeSoundness
import Pseudocode.Proofs.Budget
import Pseudocode.Proofs.MoreResources
import Pseudocode.Proofs.Composition
import Pseudocode.Proofs.InternalErrors
import Pseudocode.Proofs.ReturnAnalysis
import Pseudocode.Proofs.Isolation
import Pseudocode.Proofs.Constants
import Pseudocode.Proofs.DeclaredBounds
import Pseudocode.Proofs.RoundTrip
import Pseudocode.Proofs.CallFrames
import Pseudocode.Proofs.OutputCap
import Pseudocode.Proofs.RoutinePlaces
import Pseudocode.Proofs.ScopeMirror
import Pseudocode.Proofs.Holes
import Pseudocode.Proofs.SourceOrder
import Pseudocode.Proofs.Totality
import Pseudocode.Proofs.Slices
import Pseudocode.Proofs.DiagnosticPlaces
import Pseudocode.Proofs.IntegerRange
import Pseudocode.Proofs.CountedLoops
import Pseudocode.Proofs.Precedence
import Pseudocode.Proofs.TextLengths
import Pseudocode.Proofs.CallLines
import Pseudocode.Proofs.Assignability
import Pseudocode.Proofs.LimitedTexts
import Pseudocode.Proofs.IndexTuples
import Pseudocode.Proofs.StringLiterals
import Pseudocode.Proofs.Respacing
import Pseudocode.Proofs.DeadLabels
import Pseudocode.Proofs.DecimalRounding
import Pseudocode.Proofs.NumeralReading
import Pseudocode.Proofs.NumberTexts
import Pseudocode.Proofs.TruncatingDivision
import Pseudocode.Proofs.TypedBlocks
import Pseudocode.Proofs.UntypedNames
import Pseudocode.Proofs.References
