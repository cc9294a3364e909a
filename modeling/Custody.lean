import Custody.Analysis
import Custody.Language
import Custody.Ledger
import Custody.Modes
import Custody.Program.Decl
import Custody.Proofs.Analysis.Blocked
import Custody.Proofs.Analysis.Bodies
import Custody.Proofs.Analysis.Carried
import Custody.Proofs.Analysis.Constructed
import Custody.Proofs.Analysis.Exported
import Custody.Proofs.Analysis.Frozen
import Custody.Proofs.Analysis.Introduced
import Custody.Proofs.Analysis.Languages
import Custody.Proofs.Analysis.Lent
import Custody.Proofs.Analysis.Lexical
import Custody.Proofs.Analysis.Literals
import Custody.Proofs.Analysis.Params
import Custody.Proofs.Analysis.Restored
import Custody.Proofs.Analysis.Signatures
import Custody.Proofs.Analysis.Stored
import Custody.Proofs.Analysis.Tracked
import Custody.Proofs.Analysis.Unused
import Custody.Proofs.Analysis.Wrapped
import Custody.Proofs.Check.Coupled
import Custody.Proofs.Check.CoupledProgram
import Custody.Proofs.Check.Coupling
import Custody.Proofs.Check.Ensures
import Custody.Proofs.Check.Lasting
import Custody.Proofs.Check.Legible
import Custody.Proofs.Check.Maintains
import Custody.Proofs.Check.Passes
import Custody.Proofs.Check.Proper
import Custody.Proofs.Check.ProperProgram
import Custody.Proofs.Check.Settled
import Custody.Proofs.Check.Twins
import Custody.Proofs.Ledger.Calls
import Custody.Proofs.Ledger.Retire
import Custody.Proofs.Library.Canonical
import Custody.Proofs.Library.Consistent
import Custody.Proofs.Library.Cycle
import Custody.Proofs.Library.Edges
import Custody.Proofs.Library.Ending
import Custody.Proofs.Library.Graph
import Custody.Proofs.Library.Loads
import Custody.Proofs.Library.Moments
import Custody.Proofs.Library.Order
import Custody.Proofs.Library.Outcome
import Custody.Proofs.Library.Restack
import Custody.Proofs.Library.Specifier
import Custody.Proofs.Library.Transparent
import Custody.Proofs.Program.Reading
import Custody.Proofs.Scope.Calls
import Custody.Proofs.Scope.Levels
import Custody.Proofs.Scope.Matched
import Custody.Proofs.Session.History
import Custody.Proofs.Settings.Reader
import Custody.Proofs.Ty.Bare
import Custody.Proofs.Ty.Closed
import Custody.Proofs.Ty.Operands
import Custody.Proofs.Ty.Settled
import Custody.Scope.Levels
import Custody.Session
import Custody.Settings.Reader
import Custody.Text
import Custody.Ty.Operation
