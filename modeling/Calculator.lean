import Calculator.Main
import Calculator.Proofs.Accounting
import Calculator.Proofs.Agreement
import Calculator.Proofs.Commits
import Calculator.Proofs.Diagnosis
import Calculator.Proofs.Dissection
import Calculator.Proofs.Events
import Calculator.Proofs.FileRing
import Calculator.Proofs.LiteralValue
import Calculator.Proofs.Lookahead
import Calculator.Proofs.Quoting
import Calculator.Proofs.Separation
import Calculator.Proofs.Splitting
import Calculator.Proofs.Termination
import Calculator.Proofs.Transcript
import Calculator.Proofs.TypedBack
import Calculator.Proofs.BrokenInput
import Calculator.Proofs.LineEndings
import Calculator.Proofs.Invocation
import Calculator.Proofs.Remainder
import Calculator.Proofs.FaultFree
import Calculator.Proofs.Position
