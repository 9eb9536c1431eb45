import Transpiler.Diagnostic
import Transpiler.Text.Quoted

/-!
# Faults

Everything that can go wrong outside the reading of a line is a fault: a report with the phase it came
from and its kind, possibly caused by another fault, or one of the ways in which faults are combined.
Faults are matched by phase and kind, searched through their causes, and worded by `message`.
-/

namespace Transpiler

/-- The stage of the pipeline a fault came from, by its word. The set of phases is open. -/
structure Phase where
  word : Text
deriving DecidableEq, Repr

namespace Phase

/-- Fetching the bytes of the parsing module. -/
def load : Phase := ⟨"load"⟩
/-- Compiling, linking and starting the module. -/
def instantiate : Phase := ⟨"instantiate"⟩
/-- Access to linear memory, and allocation. -/
def memory : Phase := ⟨"memory"⟩
/-- Calling the module's parser. -/
def parse : Phase := ⟨"parse"⟩
/-- Turning serialized trees into nodes. -/
def decode : Phase := ⟨"decode"⟩
/-- Turning nodes into code. -/
def generate : Phase := ⟨"generate"⟩
/-- Running generated code. -/
def execute : Phase := ⟨"execute"⟩
/-- Reading settings. -/
def config : Phase := ⟨"config"⟩

end Phase

/-- The category of a fault, by its word. Callers branch on it, and the set of kinds is open. -/
structure Kind where
  word : Text
deriving DecidableEq, Repr

namespace Kind

/-- No module could be loaded. -/
def moduleUnavailable : Kind := ⟨"module_unavailable"⟩
/-- An import is not offered. -/
def missingImport : Kind := ⟨"missing_import"⟩
/-- An export is not there. -/
def missingExport : Kind := ⟨"missing_export"⟩
/-- The arena is full. -/
def outOfMemory : Kind := ⟨"out_of_memory"⟩
/-- An allocation failed. -/
def allocation : Kind := ⟨"allocation"⟩
/-- An access outside memory. -/
def outOfBounds : Kind := ⟨"out_of_bounds"⟩
/-- Bytes that cannot be read. -/
def invalidData : Kind := ⟨"invalid_data"⟩
/-- What the program does not do. -/
def unsupported : Kind := ⟨"unsupported"⟩
/-- Used before initialization. -/
def notInitialized : Kind := ⟨"not_initialized"⟩
/-- An input of no use. -/
def invalidInput : Kind := ⟨"invalid_input"⟩
/-- A module cannot be set up. -/
def instantiation : Kind := ⟨"instantiation"⟩
/-- The guest trapped. -/
def trap : Kind := ⟨"trap"⟩
/-- A script failed. -/
def execution : Kind := ⟨"execution"⟩

end Kind

/-- What a report carries besides its words: the offending input, when there is one. -/
inductive Payload where
  | none
  | number (n : Nat)
  | text (t : Text)
  | diagnostics (d : Diagnostics)
deriving DecidableEq, Repr

/-- A classified fault. -/
structure Report where
  phase : Phase
  kind : Kind
  path : List Text
  detail : Text
  payload : Payload
deriving DecidableEq, Repr

/-- A host function that a module asks for and nobody provides. -/
structure Import where
  space : Text
  function : Text
deriving DecidableEq, Repr

/-- What can go wrong. -/
inductive Fault where
  | plain (message : Text)
  /-- A decoding tier does not apply here. -/
  | skipped
  | canceled
  /-- Another fault with words in front. -/
  | context (message : Text) (cause : Fault)
  /-- Several faults of equal standing. -/
  | joined (faults : List Fault)
  /-- The failed attempts at one goal, in the order they were made. -/
  | attempts (faults : List Fault)
  | missingImports (imports : List Import)
  | report (report : Report)
  | caused (report : Report) (cause : Fault)
deriving Inhabited

namespace Fault

/-- A report, with its cause if there is one. -/
def ofReport (report : Report) : Option Fault → Fault
  | none => .report report
  | some cause => .caused report cause

/-! ## Wording -/

/-- The words of a report: phase, kind, place and detail. -/
def reportText (r : Report) : Text :=
  let place : Text := if r.path.isEmpty then [] else " at " ++ Text.join "." r.path
  let detail : Text := if r.detail.isEmpty then [] else ": " ++ r.detail
  "[" ++ r.phase.word ++ "] " ++ r.kind.word ++ place ++ detail

/-- The name spaces of some imports, each once, in the order they first occur. -/
def importSpaces (imports : List Import) : List Text := (imports.map (·.space)).eraseDups

/-- The paragraph for the imports of one name space. -/
def importParagraph (imports : List Import) (space : Text) : Text :=
  "\n  " ++ space ++ ":" ++ ((imports.filter (·.space == space)).flatMap fun i =>
    ("\n    - " : Text) ++ i.function) ++ "\n"

/-- The words for imports that nobody provides, grouped by name space. -/
def importsText (imports : List Import) : Text :=
  if imports.isEmpty then "[instantiate] missing_import: no imports specified"
  else
    ("missing import: " ++ Text.ofNat imports.length ++ " host function(s) not provided:\n"
      ++ (importSpaces imports).flatMap (importParagraph imports)).dropLast

mutual

/-- The fault in words. -/
def message (f : Fault) : Text :=
  match f with
  | .plain m => m
  | .skipped => "decoder: strategy not applicable"
  | .canceled => "context canceled"
  | .context m cause => m ++ ": " ++ message cause
  | .joined faults => Text.join "\n" (messages faults)
  | .attempts faults => Text.join "; " (messages faults)
  | .missingImports imports => importsText imports
  | .report r => reportText r
  | .caused r cause => reportText r ++ " (caused by: " ++ message cause ++ ")"

/-- The faults in words. -/
def messages (fs : List Fault) : List Text :=
  match fs with
  | [] => []
  | f :: rest => message f :: messages rest

end

/-! ## Searching -/

mutual

/-- A fault and all the faults behind it, outer ones first. -/
def chain (f : Fault) : List Fault :=
  f :: match f with
    | .context _ cause => chain cause
    | .joined faults => chains faults
    | .attempts faults => chains faults
    | .caused _ cause => chain cause
    | .plain _ | .skipped | .canceled | .missingImports _ | .report _ => []

/-- The chains of several faults. -/
def chains (fs : List Fault) : List Fault :=
  match fs with
  | [] => []
  | f :: rest => chain f ++ chains rest

end

/-- The fault's own report. -/
def report? : Fault → Option Report
  | .report r => some r
  | .caused r _ => some r
  | _ => none

/-- Whether imports are missing. -/
def isMissingImports : Fault → Bool
  | .missingImports _ => true
  | _ => false

/-- Whether a tier was skipped. -/
def isSkip : Fault → Bool
  | .skipped => true
  | _ => false

/-- Whether a tier's failure means, itself or through what is behind it, that the tier does not apply. -/
def meansSkip (f : Fault) : Bool := f.chain.any isSkip

/-- The outermost report. -/
def firstReport? (f : Fault) : Option Report := f.chain.findSome? report?

/-- Whether a fault is of a kind. The outermost report decides; without any report, missing imports
have a kind of their own. -/
def isKind (f : Fault) (kind : Kind) : Bool :=
  match f.firstReport? with
  | some r => r.kind == kind
  | none => kind == .missingImport && f.chain.any isMissingImports

/-- Whether one fault answers to another: reports of the same phase and kind, and missing imports to each
other and to reports of that kind. -/
def answersTo (target : Fault) (f : Fault) : Bool :=
  match f, target with
  | .missingImports _, .missingImports _ => true
  | .missingImports _, t => (t.report?.map (·.kind == .missingImport)).getD false
  | .skipped, .skipped => true
  | .canceled, .canceled => true
  | f, t =>
    match f.report?, t.report? with
    | some a, some b => a.phase == b.phase && a.kind == b.kind
    | _, _ => false

/-- Whether a fault or one behind it answers to `target`. -/
def matchesFault (f target : Fault) : Bool := f.chain.any (answersTo target)

/-- The fault right behind a fault, if there is exactly one way back. -/
def cause? : Fault → Option Fault
  | .context _ cause => some cause
  | .caused _ cause => some cause
  | _ => none

/-- The faults reached by going back along single causes, the fault itself first. -/
def spine : Fault → List Fault
  | .context m cause => .context m cause :: spine cause
  | .caused r cause => .caused r cause :: spine cause
  | f => [f]

/-- The generated code carried by the first execution fault along the single causes. -/
def generatedCode? (f : Fault) : Option Text :=
  match (f.spine.filterMap report?).find? (·.kind == .execution) with
  | some ⟨_, _, _, _, .text code⟩ => some code
  | _ => none

/-- The word for the kind of a fault, as it is reported to users. -/
def kindWord (f : Fault) : Text :=
  match f.firstReport? with
  | some r => r.kind.word
  | none =>
    if f.chain.any isMissingImports then Kind.missingImport.word
    else match f with
      | .canceled => "canceled"
      | _ => "error"

end Fault

end Transpiler
