import Transpiler.Text.Basic

/-!
# Settings of the generator

The host functions that the built-in commands call, the types whose `new` is a constructor call, and
the unit of indentation. A setting that is left empty takes its default.
-/

namespace Transpiler.Script

/-- How code is generated. -/
structure Options where
  /-- Receives the arguments of `puts`. -/
  print : Text
  /-- Schedules the block of `wait`. -/
  timer : Text
  /-- Resolves `grab` to an element by its id. -/
  lookup : Text
  /-- The constants whose `new` is a constructor call. -/
  baseTypes : List Text
  indent : Text
deriving DecidableEq, Repr

namespace Options

/-- The settings for a browser-like host. -/
def default : Options where
  print := "console.log"
  timer := "setTimeout"
  lookup := "document.getElementById"
  baseTypes := ["VisualObject"]
  indent := "  "

/-- The second text unless the first has something. -/
def orElse (given fallback : Text) : Text := if given.isEmpty then fallback else given

/-- The settings from given ones, empty texts and a missing list of types taking their defaults. -/
def ofGiven (print timer lookup indent : Text) (baseTypes : Option (List Text)) : Options where
  print := orElse print default.print
  timer := orElse timer default.timer
  lookup := orElse lookup default.lookup
  baseTypes := baseTypes.getD default.baseTypes
  indent := orElse indent default.indent

end Options

end Transpiler.Script
