import Transpiler.Syntax.Node

/-!
# Bindings of a body

Each function-level body (the program, a method, a block) declares its local names exactly once. Its assignments are
listed beforehand, in source order. A name whose first assignment is a plain statement of the body itself is declared
there, with `const` if it is assigned once and `let` otherwise. A name first assigned inside control flow, or by a
compound operator, is declared at the start of the body. A name first assigned inside a nested block belongs to that
block.
-/

namespace Transpiler.Script

/-- One assignment to a local variable or constant. -/
structure Assigned where
  name : Text
  /-- A plain assignment that is itself a statement of the body. -/
  direct : Bool
  /-- Inside a block nested in the body. -/
  inBlock : Bool
deriving DecidableEq, Repr

/-- Whether assignments in a scope make local bindings. -/
def isBound (scope : Scope) : Bool := scope == .local || scope == .constant

mutual

/-- The assignments below a node in source order; method bodies are bodies of their own. -/
def assignedBelow (inBlock : Bool) (n : Node) : List Assigned :=
  match n with
  | .program _ body => assignedInAll inBlock body
  | .assignment _ name scope _ value =>
    (if isBound scope then [⟨name, false, inBlock⟩] else []) ++ assignedBelow inBlock value
  | .call _ receiver _ arguments blk =>
    assignedBelow inBlock receiver ++ assignedInAll inBlock arguments ++ assignedBelow inBlock blk
  | .block _ _ body => assignedInAll true body
  | .array _ elements => assignedInAll inBlock elements
  | .hash _ pairs => assignedInPairs inBlock pairs
  | .cond _ condition _ consequence alternative =>
    assignedBelow inBlock condition ++ assignedInAll inBlock consequence ++ assignedInAll inBlock alternative
  | .loop _ condition _ body => assignedBelow inBlock condition ++ assignedInAll inBlock body
  | .ret _ value => assignedBelow inBlock value
  | .absent | .method .. | .var .. | .self .. | .string .. | .integer .. | .float ..
  | .boolean .. | .nil .. | .symbol .. | .comment .. | .unknown .. => []

/-- The assignments in nodes. -/
def assignedInAll (inBlock : Bool) (ns : List Node) : List Assigned :=
  match ns with
  | [] => []
  | n :: rest => assignedBelow inBlock n ++ assignedInAll inBlock rest

/-- The assignments in pairs. -/
def assignedInPairs (inBlock : Bool) (ps : List (Node × Node)) : List Assigned :=
  match ps with
  | [] => []
  | (key, value) :: rest =>
    assignedBelow inBlock key ++ assignedBelow inBlock value ++ assignedInPairs inBlock rest

end

/-- The assignments in a statement. -/
def assignedInStatement : Node → List Assigned
  | .assignment _ name scope operator value =>
    (if isBound scope then [⟨name, operator.isEmpty, false⟩] else []) ++ assignedBelow false value
  | n => assignedBelow false n

/-- The assignments in a body. -/
def assignedInBody (body : List Node) : List Assigned := body.flatMap assignedInStatement

/-- What the assignments of a body say about one name. -/
structure Usage where
  name : Text
  /-- The first assignment is a plain statement of the body. -/
  direct : Bool
  count : Nat
deriving DecidableEq, Repr

/-- Takes one more assignment into account. A name first assigned in a nested block is left to it. -/
def Usage.record (us : List Usage) (a : Assigned) : List Usage :=
  if us.any (·.name == a.name) then
    us.map fun u => if u.name == a.name then { u with count := u.count + 1 } else u
  else if a.inBlock then us
  else us ++ [⟨a.name, a.direct, 1⟩]

/-- The names a body assigns, in the order of their first assignments. -/
def usages (body : List Node) : List Usage := (assignedInBody body).foldl Usage.record []

/-- The names of one function-level body while it is generated. -/
structure Frame where
  /-- Bound so far: parameters, names declared at the start, names declared since. -/
  declared : List Text
  /-- To be declared with `let`. -/
  «mutable» : List Text
deriving DecidableEq, Repr

/-- Whether a frame declares `name`. -/
def resolves (frames : List Frame) (name : Text) : Bool := frames.any (·.declared.contains name)

/-- The usages that a new body has to declare itself: neither parameters nor bound around it. -/
def ownUsages (outer : List Frame) (params : List Text) (body : List Node) : List Usage :=
  (usages body).filter fun u => !params.contains u.name && !resolves outer u.name

/-- The names declared at the start of a body. -/
def hoisted (outer : List Frame) (params : List Text) (body : List Node) : List Text :=
  ((ownUsages outer params body).filter fun u => !u.direct).map (·.name)

/-- The frame of a body. -/
def Frame.ofBody (outer : List Frame) (params : List Text) (body : List Node) : Frame where
  declared := params ++ hoisted outer params body
  «mutable» :=
    ((ownUsages outer params body).filter fun u => 1 < u.count || !u.direct).map (·.name)

end Transpiler.Script
