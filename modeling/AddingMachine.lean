import AddingMachine.Main
import AddingMachine.Proofs.Scanner.Resumption
import AddingMachine.Proofs.Reader.Reuse
import AddingMachine.Proofs.Calculation.Completion
import AddingMachine.Proofs.Rejection
import AddingMachine.Proofs.Session.Limits
import AddingMachine.Proofs.Session.Independence
import AddingMachine.Proofs.Session.LastLine
import AddingMachine.Proofs.Session.TokenReport
import AddingMachine.Proofs.Session.Results
import AddingMachine.Proofs.CommandLine.Verbosity
