import Transpiler.Fault.Basic

/-!
# The faults of the pipeline

One constructor for each way in which a stage fails, with its phase, kind and words.
-/

namespace Transpiler.Fault

/-- A report without path or payload. -/
def simple (phase : Phase) (kind : Kind) (detail : Text) : Report := ⟨phase, kind, [], detail, .none⟩

/-- A simple report with a cause. -/
def wrap (phase : Phase) (kind : Kind) (detail : Text) (cause : Fault) : Fault :=
  .caused (simple phase kind detail) cause

/-- No source of the module could be fetched; one attempt per source. -/
def moduleUnavailable (tries : List Fault) : Fault :=
  let detail : Text := "no module source available"
  if tries.isEmpty then
    .report ⟨.load, .moduleUnavailable, [], detail ++ " (no sources configured)", .number 0⟩
  else .caused ⟨.load, .moduleUnavailable, [], detail, .number tries.length⟩ (.attempts tries)

/-- The module lacks export `name`. -/
def missingExport (name : Text) : Fault :=
  .report ⟨.instantiate, .missingExport, [], "module does not export " ++ Text.quoted name, .text name⟩

/-- The arena has too few bytes left. -/
def outOfMemory (requested remaining : Nat) : Fault :=
  .report ⟨.memory, .outOfMemory, [],
    "arena exhausted: requested " ++ Text.ofNat requested ++ " bytes, " ++ Text.ofNat remaining
      ++ " remaining", .number requested⟩

/-- The module's allocator gave nothing or failed. -/
def allocationFailed (size : Nat) (cause : Option Fault) : Fault :=
  ofReport (simple .memory .allocation ("failed to allocate " ++ Text.ofNat size ++ " bytes")) cause

/-- An access outside memory. -/
def outOfBounds (phase : Phase) (offset length : Nat) : Fault :=
  .report ⟨phase, .outOfBounds, [],
    "offset " ++ Text.ofNat offset ++ " length " ++ Text.ofNat length ++ " out of bounds",
    .number offset⟩

/-- Malformed input at a path. -/
def invalidData (phase : Phase) (path : List Text) (detail : Text) : Fault :=
  .report ⟨phase, .invalidData, path, detail, .none⟩

/-- `what` is not supported. -/
def unsupported (phase : Phase) (what : Text) : Fault := .report (simple phase .unsupported what)

/-- `component` is not set up. -/
def notInitialized (phase : Phase) (component : Text) : Fault :=
  .report (simple phase .notInitialized (component ++ " not initialized"))

/-- The input is of no use. -/
def invalidInput (phase : Phase) (detail : Text) : Fault :=
  .report (simple phase .invalidInput detail)

/-- The module was not set up. -/
def instantiation (cause : Option Fault) : Fault :=
  ofReport (simple .instantiate .instantiation "instantiate module") cause

/-- The module failed while it ran an export. -/
def trap (exported : Text) (cause : Option Fault) : Fault :=
  ofReport ⟨.parse, .trap, [], "call " ++ exported, .text exported⟩ cause

/-- Generated code failed when it was run; the code comes along. -/
def execution (code : Text) (cause : Option Fault) : Fault :=
  ofReport ⟨.execute, .execution, [], "evaluate generated code", .text code⟩ cause

/-- The settings are of no use. -/
def config (detail : Text) (cause : Option Fault) : Fault :=
  ofReport (simple .config .invalidInput detail) cause

/-- The import that a key `namespace#function` names; without a mark there is no function. -/
def importOfKey (key : Text) : Import :=
  match key.cut '#' with
  | (space, some function) => ⟨space, function⟩
  | (space, none) => ⟨space, []⟩

/-- Missing imports, given by their keys. -/
def missingImportKeys (keys : List Text) : Fault := .missingImports (keys.map importOfKey)

/-! ## Details with places for arguments -/

/-- A text argument as a verb asks for it. -/
def verbText (verb : UInt8) (argument : Text) : Text :=
  if verb == 's' || verb == 'v' then argument
  else if verb == 'q' then Text.quoted argument
  else if verb == 'x' then argument.flatMap fun b => Text.hexDigits 2 b.toNat
  else "%!" ++ [verb] ++ "(string=" ++ argument ++ ")"

/-- Arguments that no place was left for. -/
def extraText (arguments : List Text) : Text :=
  if arguments.isEmpty then []
  else "%!(EXTRA " ++ Text.join ", " (arguments.map fun a => ("string=" : Text) ++ a) ++ ")"

/-- A detail with its places filled from left to right. -/
def filled : Text → List Text → Text
  | [], arguments => extraText arguments
  | [b], arguments =>
    if b == '%' then "%!(NOVERB)" ++ extraText arguments else b :: extraText arguments
  | b :: verb :: rest, arguments =>
    if b == '%' then
      if verb == '%' then '%' :: filled rest arguments
      else match arguments with
        | [] => "%!" ++ [verb] ++ "(MISSING)" ++ filled rest []
        | a :: more => verbText verb a ++ filled rest more
    else b :: filled (verb :: rest) arguments

/-- A detail; without arguments it is taken as it is. -/
def detailText (detail : Text) (arguments : List Text) : Text :=
  if arguments.isEmpty then detail else filled detail arguments

end Transpiler.Fault
