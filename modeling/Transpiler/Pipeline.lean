import Transpiler.Script.Generator
import Transpiler.Session.Manager
import Transpiler.Syntax.Outline

/-!
# The pipeline

From a parse result to code, and from code to its evaluation. What a stage had to say stays with the
result, so that nothing has to be run again to see it. Reports tell about a parse and about the program
itself, as plain data.
-/

namespace Transpiler

/-- What a run yields. -/
structure Transpiled where
  parsed : Parsed
  output : Script.Output
  diagnostics : Diagnostics
  evaluated : Bool
  success : Bool

namespace Transpiled

/-- The code produced. -/
def code (t : Transpiled) : Text := t.output.code

/-- The code for a parse result. Nodes without code are counted in a warning. -/
def ofParsed (options : Script.Options) (parsed : Parsed) : Transpiled :=
  let output := Script.compile options parsed.body
  let diagnostics := if output.unsupported > 0 then
      parsed.diagnostics.warn (Text.ofNat output.unsupported ++ " unsupported nodes emitted as comments")
    else parsed.diagnostics
  ⟨parsed, output, diagnostics, false, parsed.success⟩

/-- What the evaluator is given: the code, if there is any. -/
def handedOver (t : Transpiled) : List Text := if t.code.isEmpty then [] else [t.code]

/-- Hands the code to an evaluator, which answers with a fault or not. Without code there is nothing to
evaluate. -/
def evaluate (evaluator : Text → Option Fault) (t : Transpiled) : Transpiled × Option Fault :=
  if t.code.isEmpty then (t, none)
  else match evaluator t.code with
    | none => ({ t with evaluated := true }, none)
    | some fault => ({ t with success := false }, some (.execution t.code (some fault)))

end Transpiled

/-! ## Reports -/

/-- The diagnostic as data. -/
def Diagnostic.outline (d : Diagnostic) : Data :=
  .map [("message", .text d.message), ("level", .text d.level.word),
    ("location", .map [("start_offset", .int d.span.start), ("end_offset", .int d.span.stop)])]

/-- The statistics as data. -/
def Guest.Stats.outline (s : Guest.Stats) : Data :=
  .map [("allocations", .int s.allocations), ("frees", .int s.frees), ("arena_used", .int s.arenaUsed)]

/-- The snapshot as data. -/
def Snapshot.entries (s : Snapshot) : List (Text × Data) :=
  [("last_result_type", .text s.lastTier.word), ("memory", s.memory.outline), ("parses", .int s.parses),
    ("warnings", .int s.warnings), ("initialized", .bool s.initialized), ("ready", .bool s.ready),
    ("last_success", .bool s.lastSuccess)]

/-- The entries of a manager's state. The last failure is left out if there is none. -/
def Manager.entries {γ : Type} (m : Manager γ) : List (Text × Data) :=
  let failure : List (Text × Data) :=
    if m.lastFaultText.isEmpty then [] else [("last_error", .text m.lastFaultText)]
  let rest : List (Text × Data) := [("state", .text m.state.word), ("loads", .int m.loads)]
  m.snapshot.entries ++ failure ++ rest

/-- The parse result as data. -/
def Parsed.entries (p : Parsed) : List (Text × Data) :=
  [("ast", (p.tree?.map Node.outline).getD .nothing), ("success", .bool p.success), ("tier", .text p.tier.word)]

/-- The warnings of all stages and the state of the parser. -/
def Transpiled.entries {γ : Type} (t : Transpiled) (m : Manager γ) : List (Text × Data) :=
  [("codegen", .map [("statements", .int t.output.statements),
      ("unsupported", .int t.output.unsupported)]),
    ("handlers", .int Node.handledTags.length), ("parser", .map m.entries),
    ("warnings", .list (t.diagnostics.warnings.map Diagnostic.outline))]

end Transpiler
