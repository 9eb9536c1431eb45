import Transpiler.Stage.Value

/-!
# Actions of scripts

What a script can do to the stage. A script is a list of actions, done in order until one fails.
-/

namespace Transpiler.Stage

/-- What a script can do. -/
inductive Action where
  | log (args : List Literal)
  /-- Writes what the callback was given as a line of output. -/
  | logArguments
  /-- Schedules the actions `body`, which are given `args`, and writes the timer's number. -/
  | timeout (delay : Literal) (body : List Action) (args : List Literal)
  /-- Tries to schedule a value that cannot be run. -/
  | timeoutOf (value : Literal)
  /-- Writes a label and schedules itself. -/
  | again (label : Literal) (delay : Literal)
  | clear (id : Literal)
  | fail (message : Text)
  | declare (name : Text) (value : Literal)
  /-- Writes the value of a name. -/
  | showDeclared (name : Text)
  /-- Makes an element and writes it. -/
  | create (args : List Literal)
  /-- Looks an element up and writes it. -/
  | lookup (args : List Literal)
  /-- Calls a method of an element and writes the result. -/
  | call (id : Literal) (method : Text) (args : List Literal)
  /-- Hides, moves, shows and hides an element again, and writes it. -/
  | chain (id : Literal) (args : List Literal)
  | assign (id : Literal) (key : Text) (value : Literal)
deriving Inhabited

/-- A script. -/
abbrev Actions := List Action

/-- The names a script declares at its own level. -/
def declaredNames (s : Actions) : List Text :=
  s.filterMap fun
    | .declare name _ => some name
    | _ => none

/-- What a failing action throws. -/
inductive Thrown where
  | error (message : Text)
  | callbackNotFunction
  | redeclared (name : Text)
  | notDefined (name : Text)
  /-- A name is used before its declaration was reached. -/
  | notYetDefined
  /-- A member of nothing is asked for. -/
  | memberOfNothing (member : Text)
  /-- A field of nothing is set. -/
  | nothingToSet
  | noMember (member : Text)
  /-- A scalar is called. -/
  | scalarCalled (text : Text)
  /-- A list, record or element is called. -/
  | compoundCalled (text : Text)
deriving DecidableEq, Repr

/-- What was thrown, in words. -/
def Thrown.message : Thrown → Text
  | .error message => if message.isEmpty then "Error" else "Error: " ++ message
  | .callbackNotFunction => "TypeError: setTimeout: callback is not a function"
  | .redeclared name => "SyntaxError: Identifier '" ++ name ++ "' has already been declared"
  | .notDefined name => "ReferenceError: " ++ name ++ " is not defined"
  | .notYetDefined => "ReferenceError: Cannot access a variable before initialization"
  | .memberOfNothing member =>
    "TypeError: Cannot read property '" ++ member ++ "' of undefined or null"
  | .nothingToSet => "TypeError: Cannot convert undefined or null to object"
  | .noMember member => "TypeError: Object has no member '" ++ member ++ "'"
  | .scalarCalled text => "TypeError: Value is not an object: " ++ text
  | .compoundCalled text => "TypeError: Not a function: " ++ text

end Transpiler.Stage
