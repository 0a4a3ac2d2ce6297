import LetPrint.Cursor
import LetPrint.Main
import LetPrint.Proofs.PlainRecursion
import LetPrint.Proofs.CommandLine
import LetPrint.Proofs.FirstFault
import LetPrint.Proofs.InOrder
import LetPrint.Proofs.Newline
import LetPrint.Proofs.Renaming
import LetPrint.Proofs.Rendering
import LetPrint.Proofs.FaultRange
import LetPrint.Proofs.StatementFaults
import LetPrint.Proofs.Substitution
import LetPrint.Proofs.ReportedTokens
import LetPrint.Proofs.Listing
import LetPrint.Proofs.ErrorReport
import LetPrint.Proofs.Overflow
import LetPrint.Proofs.FiniteNumerals
import LetPrint.Proofs.Chains
import LetPrint.Proofs.Conservation
import LetPrint.Proofs.SuccessiveSplits
import LetPrint.Proofs.TraceBalance
import LetPrint.Proofs.CallNesting
import LetPrint.Proofs.DepthOnly
import LetPrint.Proofs.Patterns
import LetPrint.Proofs.Rounds
import LetPrint.Proofs.IndexedRanges
import LetPrint.Proofs.IndexedReading
