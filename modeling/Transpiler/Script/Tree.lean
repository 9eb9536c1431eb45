import Transpiler.Number.Binary64
import Transpiler.Text.Basic

/-!
# Trees of generated code

The generator builds a tree of JavaScript before any text: expressions, statements and bodies, with
local variables still under their source names and every pair of parentheses explicit. Diagnostic
comments take the place of whole statements or of whole entries of a literal, never of less.
-/

namespace Transpiler.Script

/-- How a declaration may be used afterwards. -/
inductive Declaration where
  /-- Assigned once. -/
  | const
  /-- Assigned again. -/
  | «let»
deriving DecidableEq, Repr

mutual

/-- Expressions. -/
inductive Expr where
  | null
  | this
  | boolean (value : Bool)
  | integer (value : Int64)
  | float (value : Binary64)
  /-- A number written out in full. -/
  | delay (value : Binary64)
  | string (value : Text)
  /-- A local variable, constant or function, by its source name. -/
  | name (source : Text)
  /-- A name of the host, verbatim. -/
  | host (text : Text)
  | member (object : Expr) (property : Text)
  | index (object key : Expr)
  | call (callee : Expr) (arguments : List Expr)
  /-- A constructor call; the type is named verbatim. -/
  | construct (type : Text) (arguments : List Expr)
  | unary (operator : Text) (operand : Expr)
  | binary (left : Expr) (operator : Text) (right : Expr)
  | conditional (condition consequence alternative : Expr)
  | assign (target value : Expr)
  | group (inner : Expr)
  /-- A function with a body of statements. -/
  | arrow (params : List Text) (body : List Stmt)
  | array (entries : List Entry)
  | object (entries : List Entry)

/-- Entries of arrays and objects. -/
inductive Entry where
  | value (e : Expr)
  /-- A property under a fixed key. -/
  | named (key : Text) (e : Expr)
  /-- A property under a key that is computed. -/
  | computed (key e : Expr)
  /-- The comment in place of an entry that cannot be expressed. -/
  | comment (tag : Text)

/-- Statements. -/
inductive Stmt where
  /-- The comment in place of a statement that cannot be expressed. -/
  | comment (tag : Text)
  /-- Declares names at the start of a body. -/
  | hoist (names : List Text)
  /-- Assigns, with the operator before the equals sign, and declares the target if asked to. -/
  | assign (declaration : Option Declaration) (target : Expr) (operator : Text) (value : Expr)
  | expr (e : Expr)
  | ret (e : Expr)
  | leave
  | branch (condition : Expr) (body : List Stmt) (alternative : Alternative)
  | loop (condition : Expr) (body : List Stmt)
  | function (name : Text) (params : List Text) (body : List Stmt)

/-- What follows the first branch of a conditional statement. -/
inductive Alternative where
  | none
  | otherwise (body : List Stmt)
  | elif (condition : Expr) (body : List Stmt) (rest : Alternative)

end

instance : Inhabited Expr := ⟨.null⟩

end Transpiler.Script
