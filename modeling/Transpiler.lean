import Transpiler.Main
import Transpiler.Proofs.Decoding.Concatenation
import Transpiler.Proofs.Fault.Kinds
import Transpiler.Proofs.Guest.Descriptors
import Transpiler.Proofs.Guest.Echo
import Transpiler.Proofs.Guest.Exits
import Transpiler.Proofs.Guest.Scopes
import Transpiler.Proofs.Prompt
import Transpiler.Proofs.Script.Access
import Transpiler.Proofs.Script.Clashes
import Transpiler.Proofs.Script.Declarations
import Transpiler.Proofs.Script.Delays
import Transpiler.Proofs.Script.Entries
import Transpiler.Proofs.Script.Literals
import Transpiler.Proofs.Script.Remarks
import Transpiler.Proofs.Session.Degrading
import Transpiler.Proofs.Session.LoadPolicy
import Transpiler.Proofs.Stage.Clock
import Transpiler.Proofs.Syntax.Halting
import Transpiler.Proofs.Syntax.Locals
import Transpiler.Proofs.Syntax.Places
import Transpiler.Proofs.Wire.Acceptance
import Transpiler.Proofs.Wire.Comments
import Transpiler.Proofs.Wire.Drafts
import Transpiler.Proofs.Wire.Merging
import Transpiler.Proofs.Wire.Varints
