import Transpiler.Text.Basic

/-!
# Places in the source and messages

A span is the range of bytes that a part of the source covers. The messages that come with a parse stand at
one: errors the parser reported, and warnings from any stage.
-/

namespace Transpiler

/-- A range of byte offsets, the end excluded. -/
structure Span where
  start : Nat
  stop : Nat
deriving DecidableEq, Repr, Inhabited

/-- The span of a node without a place in the source. -/
def Span.none : Span := ⟨0, 0⟩

/-- Where a name is known. -/
inductive Scope where
  | local
  | object
  | global
  | constant
deriving DecidableEq, Repr

namespace Scope

/-- The word for a scope. -/
def word : Scope → Text
  | .local => "local"
  | .object => "instance"
  | .global => "global"
  | .constant => "constant"

/-- The scope of a name, told by its first byte. -/
def ofName : Text → Scope
  | [] => .local
  | b :: _ =>
    if b == '@' then .object
    else if b == '$' then .global
    else if 'A' ≤ b && b ≤ 'Z' then .constant
    else .local

end Scope

/-- How grave a message is. -/
inductive Level where
  | error
  | warning
deriving DecidableEq, Repr

/-- The word for a level. -/
def Level.word : Level → Text
  | .error => "error"
  | .warning => "warning"

/-- A message and its place. -/
structure Diagnostic where
  message : Text
  level : Level
  span : Span
deriving DecidableEq, Repr

/-- A warning without a place. -/
def Diagnostic.warning (message : Text) : Diagnostic := ⟨message, .warning, Span.none⟩

/-- The messages of a parse. -/
structure Diagnostics where
  errors : List Diagnostic
  warnings : List Diagnostic
deriving DecidableEq, Repr

namespace Diagnostics

/-- No messages. -/
def empty : Diagnostics := ⟨[], []⟩

/-- Adds a warning. -/
def warn (d : Diagnostics) (message : Text) : Diagnostics :=
  { d with warnings := d.warnings ++ [.warning message] }

/-- The messages of both, the second's after the first's. -/
def append (d e : Diagnostics) : Diagnostics := ⟨d.errors ++ e.errors, d.warnings ++ e.warnings⟩

end Diagnostics

end Transpiler
