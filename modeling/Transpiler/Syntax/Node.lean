import Transpiler.Diagnostic
import Transpiler.Number.Binary64

/-!
# Syntax trees

One type holds every construct of the source language. All decoding tiers produce it and the
generator consumes it. A construct that a tier cannot represent is carried as `unknown` with the
tier's own tag, and `absent` stands where a child is left out.
-/

namespace Transpiler

/-- Nodes of the syntax tree. -/
inductive Node where
  /-- The place of a child that is not there. -/
  | absent
  /-- The root: statements in source order. -/
  | program (span : Span) (body : List Node)
  /-- Binds a value to a name. The operator is empty for a plain assignment and `+` for `x += 1`. -/
  | assignment (span : Span) (name : Text) (scope : Scope) (operator : Text) (value : Node)
  /-- A method call; operators are calls too. The block is `absent` or a `block`. -/
  | call (span : Span) (receiver : Node) (name : Text) (arguments : List Node) (block : Node)
  | block (span : Span) (params : List Text) (body : List Node)
  | var (span : Span) (name : Text) (scope : Scope)
  /-- The receiver of the current method. -/
  | self (span : Span)
  | string (span : Span) (value : Text)
  | integer (span : Span) (value : Int64)
  | float (span : Span) (value : Binary64)
  | boolean (span : Span) (value : Bool)
  | nil (span : Span)
  /-- A symbol, without its colon. -/
  | symbol (span : Span) (value : Text)
  | array (span : Span) (elements : List Node)
  | hash (span : Span) (pairs : List (Node × Node))
  /-- `if` and, negated, `unless`. A further condition is an alternative holding one `cond`. -/
  | cond (span : Span) (condition : Node) (negated : Bool) (consequence alternative : List Node)
  /-- `while` and, negated, `until`. -/
  | loop (span : Span) (condition : Node) (negated : Bool) (body : List Node)
  | method (span : Span) (name : Text) (params : List Text) (body : List Node)
  /-- Leaves the method; the value may be `absent`. -/
  | ret (span : Span) (value : Node)
  | comment (span : Span) (text : Text)
  /-- A construct the producing tier could not represent, under that tier's tag. -/
  | unknown (span : Span) (tag : Text) (text : Text)
deriving Inhabited

namespace Node

/-- The name of the node's kind. -/
def tag : Node → Text
  | .absent => []
  | .program .. => "Program"
  | .assignment .. => "Assignment"
  | .call .. => "Call"
  | .block .. => "Block"
  | .var .. => "Variable"
  | .self .. => "Self"
  | .string .. => "StringLiteral"
  | .integer .. => "IntegerLiteral"
  | .float .. => "FloatLiteral"
  | .boolean .. => "BooleanLiteral"
  | .nil .. => "NilLiteral"
  | .symbol .. => "SymbolLiteral"
  | .array .. => "ArrayLiteral"
  | .hash .. => "HashLiteral"
  | .cond .. => "If"
  | .loop .. => "While"
  | .method .. => "Def"
  | .ret .. => "Return"
  | .comment .. => "Comment"
  | .unknown _ tag _ => tag

/-- Where the node stands. -/
def span : Node → Span
  | .absent => Span.none
  | .program s _ => s
  | .assignment s _ _ _ _ => s
  | .call s _ _ _ _ => s
  | .block s _ _ => s
  | .var s _ _ => s
  | .self s => s
  | .string s _ => s
  | .integer s _ => s
  | .float s _ => s
  | .boolean s _ => s
  | .nil s => s
  | .symbol s _ => s
  | .array s _ => s
  | .hash s _ => s
  | .cond s _ _ _ _ => s
  | .loop s _ _ _ => s
  | .method s _ _ _ => s
  | .ret s _ => s
  | .comment s _ => s
  | .unknown s _ _ => s

/-- Whether the place of a child is empty. -/
def isAbsent : Node → Bool
  | .absent => true
  | _ => false

theorem eq_absent_of_isAbsent {n : Node} (h : n.isAbsent) : n = .absent := by
  cases n with
  | absent => rfl
  | _ => cases h

/-- Whether it is a block. -/
def isBlock : Node → Bool
  | .block .. => true
  | _ => false

/-- Whether it is a comment. -/
def isComment : Node → Bool
  | .comment .. => true
  | _ => false

/-- The kinds the generator has a rule for, in the order they are listed to users. -/
def handledTags : List Text :=
  ["Program", "Assignment", "Call", "Block", "Variable", "Self", "StringLiteral",
    "IntegerLiteral", "FloatLiteral", "BooleanLiteral", "NilLiteral", "SymbolLiteral",
    "ArrayLiteral", "HashLiteral", "If", "While", "Def", "Return", "Comment"]

end Node

/-! ## The nodes of a tree -/

namespace Node

mutual

/-- The nodes of a tree in source order, without those below a node at which `descend` fails. -/
def walk (descend : Node → Bool) (n : Node) : List Node :=
  match n with
  | .absent => []
  | .program _ body => n :: if descend n then walkAll descend body else []
  | .assignment _ _ _ _ value => n :: if descend n then walk descend value else []
  | .call _ receiver _ arguments blk =>
    n :: if descend n then
      walk descend receiver ++ walkAll descend arguments ++ walk descend blk else []
  | .block _ _ body => n :: if descend n then walkAll descend body else []
  | .array _ elements => n :: if descend n then walkAll descend elements else []
  | .hash _ pairs => n :: if descend n then walkPairs descend pairs else []
  | .cond _ condition _ consequence alternative =>
    n :: if descend n then
      walk descend condition ++ walkAll descend consequence ++ walkAll descend alternative else []
  | .loop _ condition _ body =>
    n :: if descend n then walk descend condition ++ walkAll descend body else []
  | .method _ _ _ body => n :: if descend n then walkAll descend body else []
  | .ret _ value => n :: if descend n then walk descend value else []
  | .var .. | .self .. | .string .. | .integer .. | .float .. | .boolean .. | .nil ..
  | .symbol .. | .comment .. | .unknown .. => [n]

/-- Walks nodes in turn. -/
def walkAll (descend : Node → Bool) (ns : List Node) : List Node :=
  match ns with
  | [] => []
  | n :: rest => walk descend n ++ walkAll descend rest

/-- The nodes of a list of pairs, keys before values. -/
def walkPairs (descend : Node → Bool) (ps : List (Node × Node)) : List Node :=
  match ps with
  | [] => []
  | (key, value) :: rest => walk descend key ++ walk descend value ++ walkPairs descend rest

end

end Node

end Transpiler
