import Equational.Json.Model
import Equational.Json.Report
import Equational.Proofs.Diagnostic.Place
import Equational.Proofs.Environment.History
import Equational.Proofs.Grammar.Canonical
import Equational.Proofs.Grammar.Spacing
import Equational.Proofs.Grammar.Stream
import Equational.Proofs.Grammar.Viability
import Equational.Proofs.Machine.Limit
import Equational.Proofs.Machine.Registration
import Equational.Proofs.Machine.Start
import Equational.Proofs.Machine.Termination
import Equational.Proofs.Rewriting.NormalForm
import Equational.Proofs.Session.Call
import Equational.Proofs.Session.Composition
import Equational.Proofs.Session.Variables
import Equational.Proofs.Settings.Variables
import Equational.Proofs.Sorting.Call
import Equational.Proofs.Specification.Acceptance
import Equational.Proofs.Specification.Arithmetic
import Equational.Proofs.Specification.Literals
import Equational.Proofs.Specification.Queues
import Equational.Proofs.Term.Repetition
import Equational.Proofs.Text.Offset
import Equational.Proofs.Token.Coverage
import Equational.Session
import Equational.Settings.Document
import Equational.Settings.Variables
import Equational.Text.Quoted
import Equational.Token.Stream
