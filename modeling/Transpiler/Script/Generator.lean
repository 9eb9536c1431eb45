import Transpiler.Script.Bindings
import Transpiler.Script.Options
import Transpiler.Script.Printer

/-!
# Generating code

Every syntax tree has generated code. Some constructs cannot be expressions; a construct that cannot be
expressed where it stands takes with it the smallest enclosing statement or entry of a literal, which is
replaced by one diagnostic comment. The generator threads the frames of the bodies it is inside of and
counts the comments it makes, including those inside text that is dropped later.
-/

namespace Transpiler.Script

/-- The generator's state. -/
structure Progress where
  /-- The bodies around the current place, innermost first. -/
  frames : List Frame
  unsupported : Nat
deriving DecidableEq, Repr

/-- A step of generating code. It fails with the tag of the construct that cannot be expressed. -/
abbrev Emit := EStateM Text Progress

namespace Emit

/-- Runs a step and gives its failure as a value. What the step counted stays counted. -/
def attempt {α : Type} (x : Emit α) : Emit (Except Text α) := fun s =>
  match x s with
  | .ok a s' => .ok (.ok a) s'
  | .error tag s' => .ok (.error tag) s'

/-- A construct that cannot be expressed here. -/
def refuse {α : Type} (tag : Text) : Emit α := throw tag

/-- Counts an unsupported node. -/
def count : Emit Unit := modify fun s => { s with unsupported := s.unsupported + 1 }

/-- Runs the body of a function inside `frame`, whose surroundings are `outer`, and puts the frames back
afterwards. -/
def inFrame {α : Type} (frame : Frame) (outer : List Frame) (body : Emit α) : Emit α := do
  let saved := (← get).frames
  modify fun s => { s with frames := frame :: outer }
  let result ← body
  modify fun s => { s with frames := saved }
  return result

/-- Marks a name as declared in the innermost frame. -/
def declare (name : Text) : Emit Unit :=
  modify fun s => match s.frames with
    | [] => s
    | f :: rest => { s with frames := { f with declared := name :: f.declared } :: rest }

end Emit

open Emit

/-! ## Operators and names -/

/-- The binary operator for a call. -/
def binaryOperator? (name : Text) : Option Text :=
  if name == "==" then some "==="
  else if name == "!=" then some "!=="
  else if (List.map Text.ofString ["+", "-", "*", "/", "%", "**", "<", ">", "<=", ">=", "&", "|",
      "^", ">>", "&&", "||"]).contains name then some name
  else none

/-- The unary operator for a call. -/
def unaryOperator? (name : Text) : Option Text :=
  if name == "-@" then some "-"
  else if name == "+@" then some "+"
  else if name == "!" then some "!"
  else if name == "~" then some "~"
  else none

/-- Whether a call is an operator. -/
def isOperator (receiver : Node) (name : Text) (arguments : List Node) (blk : Node) : Bool :=
  !receiver.isAbsent && !blk.isBlock &&
    (((binaryOperator? name).isSome && arguments.length == 1) || ((unaryOperator? name).isSome && arguments.isEmpty))

/-- Whether a node's expression needs parentheses inside a larger one. -/
def needsGroup : Node → Bool
  | .call _ receiver name arguments blk => isOperator receiver name arguments blk
  | .cond .. | .block .. | .hash .. => true
  | .integer _ v => v < 0
  | .float _ x => x.isNegative && !x.isNaN
  | _ => false

/-- The expression of a node for use inside a larger one. -/
def grouped (n : Node) (e : Expr) : Expr := if needsGroup n then .group e else e

/-- Drops the marks in front of an instance variable. -/
def dropSigils (name : Text) : Text := name.dropWhile (· == '@')

/-- A variable as an expression: instance variables and globals are properties. -/
def variableExpr (name : Text) : Scope → Expr
  | .object => .member .this (dropSigils name)
  | .global => .member (.host "globalThis") (name.dropByte '$')
  | .local | .constant => .name name

/-- Whether a receiver is a constant whose `new` is a constructor call. -/
def constructed? (o : Options) (receiver : Node) (method : Text) : Option Text :=
  match receiver with
  | .var _ name .constant =>
    if method == "new" && o.baseTypes.contains name then some name else none
  | _ => none

/-- The expression of a condition, negated if it has to be. -/
def conditionOf (n : Node) (negated : Bool) (e : Expr) : Expr :=
  if negated then .unary "!" (grouped n e) else e

/-- The delay of a `wait` in milliseconds, from its argument in seconds. -/
def delayOf (seconds : Node) (e : Expr) : Expr :=
  match seconds with
  | .integer _ v => .integer (v * 1000)
  | .float _ x => .delay (x.scale 1000)
  | _ => .binary (grouped seconds e) "*" (.integer 1000)

/-- A call of a method of `object` without a block: indexing, pushing and assigning to a property have
forms of their own. -/
def methodCall (object : Expr) (name : Text) (arguments : List Expr) : Expr :=
  match arguments with
  | [a] =>
    if name == "[]" then .index object a
    else if name == "<<" then .call (.member object "push") [a]
    else if isSetter name then .assign (.member object name.dropLast) a
    else .call (.member object name) [a]
  | [a, b] =>
    if name == "[]=" then .assign (.index object a) b else .call (.member object name) [a, b]
  | _ => .call (.member object name) arguments

/-- Declares names, if any. -/
def hoistStatement (names : List Text) : List Stmt := if names.isEmpty then [] else [.hoist names]

/-- A block as a function, from the reading of its statements. -/
def arrowOf (params : List Text) (body : List Node) (statements : Emit (List Stmt)) : Emit Expr := do
  let outer := (← get).frames
  let stmts ← inFrame (.ofBody outer params body) outer statements
  return .arrow params (hoistStatement (hoisted outer params body) ++ stmts)

/-! ## Statements from their expressions -/

/-- What became of a statement. -/
inductive Outcome where
  | emitted
  | dropped
  | unsupported
deriving DecidableEq, Repr

/-- A comment in place of a statement. -/
def commented (tag : Text) : Emit (List Stmt × Outcome) := do
  count
  return ([.comment tag], .unsupported)

/-- The statement built from an expression, or the comment that stands for it. -/
def orComment (e : Emit Expr) (build : Expr → Emit (List Stmt)) : Emit (List Stmt × Outcome) := do
  match ← attempt e with
  | .error tag => commented tag
  | .ok e => return (← build e, .emitted)

/-- An expression as a statement, which yields its value if it is the last of its body. -/
def expressionStatement (e : Emit Expr) (yields : Bool) : Emit (List Stmt × Outcome) :=
  orComment e fun e => return [if yields then .ret e else .expr e]

/-- The assignment statement for a value. A plain assignment to a name that is not bound yet declares
it. -/
def assignmentStatement (name : Text) (scope : Scope) (operator : Text) (value : Expr) (yields : Bool) :
    Emit (List Stmt) := do
  let target := variableExpr name scope
  let frames := (← get).frames
  let declaration : Option Declaration :=
    if isBound scope && operator.isEmpty && !resolves frames name then
      some (if (frames.head?.map (·.mutable.contains name)).getD false then .let else .const)
    else none
  if declaration.isSome then declare name
  return .assign declaration target operator value :: if yields then [.ret target] else []

/-- The expressions of a body's statements, where a comment takes the place of one that fails. -/
def entryOr (e : Emit Entry) : Emit Entry := do
  match ← attempt e with
  | .ok entry => return entry
  | .error tag =>
    count
    return .comment tag

/-- The entry of a hash pair. -/
def pairEntry (key : Node) (k v : Emit Expr) : Emit Entry := do
  match key with
  | .symbol _ name => return .named name (← v)
  | .string _ name => return .named name (← v)
  | _ => do
    let k ← k
    return .computed k (← v)

mutual

/-- The expression of a node. -/
def expr (o : Options) (n : Node) : Emit Expr :=
  match n with
  | .absent => return .null
  | .string _ value => return .string value
  | .symbol _ value => return .string value
  | .integer _ value => return .integer value
  | .float _ value => return .float value
  | .boolean _ value => return .boolean value
  | .nil _ => return .null
  | .self _ => return .this
  | .var _ name scope => return variableExpr name scope
  | .array _ elements => do return .array (← elementEntries o elements)
  | .hash _ pairs => do return .object (← pairEntries o pairs)
  | .block _ params body => arrowOf params body (statements o body true)
  | .cond _ condition negated [consequence] [] => do
    let c ← expr o condition
    let t ← expr o consequence
    return .conditional (conditionOf condition negated c) (grouped consequence t) .null
  | .cond _ condition negated [consequence] [alternative] => do
    let c ← expr o condition
    let t ← expr o consequence
    let e ← expr o alternative
    return .conditional (conditionOf condition negated c) (grouped consequence t) (grouped alternative e)
  | .cond .. => refuse "If"
  | .program _ [only] => expr o only
  | .program .. => refuse "Program"
  | .call _ .absent name arguments blk =>
    let arrow (yields : Bool) : Emit (List Expr) :=
      match blk with
      | .block _ params body => do
        let f ← arrowOf params body (statements o body yields)
        return [f]
      | _ => return []
    let plain : Emit Expr := do
      let args ← exprs o arguments
      let b ← arrow true
      return .call (.name name) (args ++ b)
    if name == "puts" then do
      let args ← exprs o arguments
      return .call (.host o.print) args
    else if name == "grab" then
      match arguments with
      | [id] =>
        if blk.isBlock then plain
        else do
          let id ← expr o id
          return .call (.host o.lookup) [id]
      | _ => plain
    else if name == "wait" then
      match arguments with
      | [] => do
        let f ← arrow false
        return .call (.host o.timer) [f.headD (.arrow [] []), .integer 0]
      | [seconds] => do
        let e ← expr o seconds
        let f ← arrow false
        return .call (.host o.timer) [f.headD (.arrow [] []), delayOf seconds e]
      | _ => plain
    else plain
  | .call _ receiver name arguments blk =>
    if isOperator receiver name arguments blk then
      match arguments with
      | [] => do
        let r ← expr o receiver
        return .unary ((unaryOperator? name).getD name) (grouped receiver r)
      | a :: _ => do
        let r ← expr o receiver
        let e ← expr o a
        return .binary (grouped receiver r) ((binaryOperator? name).getD name) (grouped a e)
    else do
      let args ← exprs o arguments
      let arrow : Emit (List Expr) :=
        match blk with
        | .block _ params body => do
          let f ← arrowOf params body (statements o body true)
          return [f]
        | _ => return []
      match constructed? o receiver name with
      | some type => return .construct type (args ++ (← arrow))
      | none => do
        let r ← expr o receiver
        let object := grouped receiver r
        if blk.isBlock then return .call (.member object name) (args ++ (← arrow))
        else return methodCall object name args
  | .assignment .. | .loop .. | .method .. | .ret .. | .comment .. | .unknown .. => refuse n.tag

/-- The expressions of some nodes, up to the first that fails. -/
def exprs (o : Options) (ns : List Node) : Emit (List Expr) :=
  match ns with
  | [] => return []
  | n :: rest => do
    let e ← expr o n
    let es ← exprs o rest
    return e :: es

/-- The entries of elements. -/
def elementEntries (o : Options) (ns : List Node) : Emit (List Entry) :=
  match ns with
  | [] => return []
  | n :: rest => do
    let e ← entryOr (do return .value (← expr o n))
    let es ← elementEntries o rest
    return e :: es

/-- The entries of hash pairs. -/
def pairEntries (o : Options) (ps : List (Node × Node)) : Emit (List Entry) :=
  match ps with
  | [] => return []
  | (key, value) :: rest => do
    let e ← entryOr (pairEntry key (expr o key) (expr o value))
    let es ← pairEntries o rest
    return e :: es

/-- The statements of a node whose expression is `asExpr`. A statement that `yields` is the last of its
body and gives the body's value. -/
def statement (o : Options) (n : Node) (asExpr : Emit Expr) (yields : Bool) : Emit (List Stmt × Outcome) :=
  match n with
  | .absent | .comment .. => return ([], .dropped)
  | .unknown _ tag _ => commented tag
  | .program _ body => do return (← statements o body yields, .emitted)
  | .assignment _ name scope operator value =>
    orComment (expr o value) fun v => assignmentStatement name scope operator v yields
  | .cond _ condition negated consequence alternative =>
    orComment (do return conditionOf condition negated (← expr o condition)) fun c => do
      let body ← statements o consequence yields
      let rest ← alternatives o alternative (statements o alternative yields) yields
      return [.branch c body rest]
  | .loop _ condition negated body =>
    orComment (do return conditionOf condition negated (← expr o condition)) fun c => do
      let body ← statements o body false
      return [.loop c body]
  | .method _ name params body => do
    let stmts ← inFrame (.ofBody [] params body) [] (statements o body true)
    return ([.function name params (hoistStatement (hoisted [] params body) ++ stmts)], .emitted)
  | .ret _ .absent => return ([.leave], .emitted)
  | .ret _ value => orComment (expr o value) fun v => return [.ret v]
  | .call .. | .block .. | .var .. | .self .. | .string .. | .integer .. | .float .. | .boolean ..
  | .nil .. | .symbol .. | .array .. | .hash .. => expressionStatement asExpr yields

/-- The statements of a body. If it `yields`, its last node that is no comment gives its value. -/
def statements (o : Options) (ns : List Node) (yields : Bool) : Emit (List Stmt) :=
  match ns with
  | [] => return []
  | n :: rest => do
    let (first, _) ← statement o n (expr o n) (yields && rest.all Node.isComment)
    let more ← statements o rest yields
    return first ++ more

/-- What follows the first branch, where `ordinary` generates the nodes as a plain body. A single
conditional whose condition can be expressed continues the chain; otherwise it is generated again as
an ordinary statement, and fails again. -/
def alternatives (o : Options) (ns : List Node) (ordinary : Emit (List Stmt)) (yields : Bool) : Emit Alternative :=
  match ns with
  | [] => return .none
  | [.cond _ condition negated consequence alternative] => do
    match ← attempt (do return conditionOf condition negated (← expr o condition)) with
    | .ok c =>
      let body ← statements o consequence yields
      let rest ← alternatives o alternative (statements o alternative yields) yields
      return .elif c body rest
    | .error _ => return .otherwise (← ordinary)
  | _ => do return .otherwise (← ordinary)

end

/-! ## Programs -/

/-- Generated code in lines, with what was counted on the way. -/
structure Output where
  lines : List Text
  statements : Nat
  unsupported : Nat
deriving DecidableEq, Repr

/-- The lines as one text. -/
def Output.code (out : Output) : Text := Text.join [Text.newline] out.lines

/-- The statements of the top-level nodes, and how many of the nodes became code. -/
def topLevel (o : Options) : List Node → Emit (List Stmt × Nat)
  | [] => return ([], 0)
  | n :: rest => do
    let (first, outcome) ← statement o n (expr o n) false
    let (more, emitted) ← topLevel o rest
    return (first ++ more, emitted + if outcome == .emitted then 1 else 0)

/-- The script of a program, and what was counted on the way. -/
def script (o : Options) (nodes : List Node) : List Stmt × Nat × Nat :=
  match topLevel o nodes ⟨[.ofBody [] [] nodes], 0⟩ with
  | .ok (stmts, emitted) s => (hoistStatement (hoisted [] [] nodes) ++ stmts, emitted, s.unsupported)
  | .error _ s => ([], 0, s.unsupported)

/-- The script of a program. -/
def compile (o : Options) (nodes : List Node) : Output :=
  let (stmts, emitted, unsupported) := script o nodes
  ⟨Stmt.allLines o.indent 0 stmts, emitted, unsupported⟩

end Transpiler.Script
