import PasswordPolicy.Main
import PasswordPolicy.Policy.Audit
import PasswordPolicy.Proofs.CommandLine.Agreement
import PasswordPolicy.Proofs.CommandLine.Secrecy
import PasswordPolicy.Proofs.CountRange.Forms
import PasswordPolicy.Proofs.CountRange.Shortest
import PasswordPolicy.Proofs.Generation.Fairness
import PasswordPolicy.Proofs.Generation.Ledger
import PasswordPolicy.Proofs.Generation.Price
import PasswordPolicy.Proofs.Policy.Canonical
import PasswordPolicy.Proofs.Policy.Congruence
import PasswordPolicy.Proofs.Policy.Continuation
import PasswordPolicy.Proofs.Policy.Counts
import PasswordPolicy.Proofs.Policy.Editing
import PasswordPolicy.Proofs.Policy.Grammar
import PasswordPolicy.Proofs.Policy.Reports
import PasswordPolicy.Proofs.Policy.RoundTrip
import PasswordPolicy.Proofs.Workspace.Failure
import PasswordPolicy.Proofs.Workspace.Isolation
import PasswordPolicy.Proofs.Workspace.Overriding
import PasswordPolicy.Proofs.Workspace.Rereading
import PasswordPolicy.Workspace.Step
