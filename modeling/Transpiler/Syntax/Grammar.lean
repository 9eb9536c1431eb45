import Transpiler.Syntax.Parsing

/-!
# The grammar of a line

Each rule reads one construct. Rules that occur inside themselves (expressions and statements) are passed in as a pair
of readings, `Rules`, so that every rule is a plain function; `Rules.upTo n` ties the knot for constructs nested at
most `n` deep, and `Token.depth` bounds the nesting that a line has room for. Repetition is bounded by the number of
tokens left. An infix operator is taken into the expression on its left if it binds more tightly than the operator
before that expression.
-/

namespace Transpiler

/-- The readings of the constructs that nest: an expression whose operators bind more tightly than a
given power, and a statement. -/
structure Rules where
  expr : Nat → Parse Node
  statement : Parse Node

namespace Grammar

open Parse

/-! ## Operators -/

/-- How tightly an infix operator binds. -/
def bindingPower? (op : Text) : Option Nat :=
  if op == "or" || op == "and" then some 10
  else if op == "||" then some 20
  else if op == "&&" then some 30
  else if op == "==" || op == "!=" || op == "=~" || op == "!~" || op == "===" || op == "<=>" then
    some 40
  else if op == "<" || op == ">" || op == "<=" || op == ">=" then some 50
  else if op == "|" || op == "^" then some 55
  else if op == "&" then some 57
  else if op == "<<" || op == ">>" then some 58
  else if op == "+" || op == "-" then some 60
  else if op == "*" || op == "/" || op == "%" then some 70
  else if op == "**" then some 80
  else none

/-- The power below which nothing binds. -/
abbrev loosest : Nat := 0

/-- The power of the word `not`. -/
abbrev notPower : Nat := 10

/-- The power of the signs before an operand. -/
abbrev unaryPower : Nat := 75

/-- The operator inside a compound assignment. -/
def compound? (op : Text) : Option Text :=
  if [("+=" : Text), "-=", "*=", "/=", "%=", "**=", "||=", "&&=", "|=", "&="].contains op then
    some op.dropLast
  else none

/-- The name under which an infix operator is called. -/
def calledName (op : Text) : Text :=
  if op == "and" then "&&" else if op == "or" then "||" else op

/-- The keywords that open or close structure over several lines. -/
def structuralKeywords : List Text :=
  ["end", "else", "begin", "class", "module", "rescue", "ensure", "case", "when", "do", "then",
    "yield", "break", "next", "redo", "retry"]

/-! ## Arguments -/

/-- The arguments read so far: plain ones, and the pairs collected into one trailing hash. -/
structure Arguments where
  plain : List Node
  keywords : Option (Span × List (Node × Node))

/-- No arguments. -/
def Arguments.empty : Arguments := ⟨[], none⟩

/-- All arguments, with the collected pairs as a last one. -/
def Arguments.nodes (a : Arguments) : List Node :=
  match a.keywords with
  | none => a.plain
  | some (span, pairs) => a.plain ++ [.hash span pairs]

/-- Adds a pair read from `start` to `stop`. -/
def Arguments.addPair (a : Arguments) (key value : Node) (start stop : Nat) : Arguments :=
  match a.keywords with
  | none => { a with keywords := some (⟨start, stop⟩, [(key, value)]) }
  | some (span, pairs) =>
    { a with keywords := some (⟨span.start, stop⟩, pairs ++ [(key, value)]) }

/-- Reads one argument: `key: value`, `key => value` or a plain one. -/
def argument (r : Rules) (args : Arguments) : Parse Arguments := do
  let t ← peek
  if t.kind == .label then
    let _ ← advance
    let v ← r.expr loosest
    return args.addPair (.symbol ⟨t.pos, t.stop⟩ t.text) v t.pos (← get).cursor.lastEnd
  else
    let v ← r.expr loosest
    if ← takeOp "=>" then
      let value ← r.expr loosest
      return args.addPair v value t.pos (← get).cursor.lastEnd
    else return { args with plain := args.plain ++ [v] }

/-- Reads arguments separated by commas. -/
def commandArgs (r : Rules) : Nat → Arguments → Parse (List Node)
  | 0, _ => throw .exhausted
  | n + 1, args => do
    let args ← argument r args
    if ← takeOp "," then commandArgs r n args else return args.nodes

/-- Reads arguments separated by commas up to a closing bracket; a last comma may stand alone. -/
def listItems (r : Rules) (closer : Text) : Nat → Arguments → Parse (List Node)
  | 0, _ => throw .exhausted
  | n + 1, args => do
    if ← atOp closer then return args.nodes
    else
      let args ← argument r args
      if ← takeOp "," then listItems r closer n args else return args.nodes

/-- A list up to its closer. -/
def list (r : Rules) (closer : Text) : Parse (List Node) := do
  let items ← listItems r closer (← budget) .empty
  expectOp closer
  return items

/-- Whether the current token begins an argument of a call without parentheses. -/
def startsCommandArg : Parse Bool := do
  let t ← peek
  if !t.spaced then return false
  else match t.kind with
    | .int | .float | .string | .symbol | .ident | .const | .ivar | .gvar | .label => return true
    | .keyword =>
      return [("true" : Text), "false", "nil", "self", "not"].contains t.text
    | .op =>
      if t.text == "[" || t.text == "(" || t.text == "!" then return true
      else if t.text == "-" then
        let second ← peekSecond
        return !second.spaced && !second.isEof
      else return false
    | .eof => return false

/-! ## Bodies and blocks -/

/-- Skips semicolons. -/
def skipSemicolons : Nat → Parse Unit
  | 0 => return ()
  | n + 1 => do
    if ← takeOp ";" then skipSemicolons n else return ()

/-- Reads statements separated by semicolons up to a stop word, a closing brace or the end. -/
def inlineBody (r : Rules) (stops : List Text) : Nat → List Node → Parse (List Node)
  | 0, _ => throw .exhausted
  | n + 1, body => do
    skipSemicolons (← budget)
    let t ← peek
    if t.isEof || t.isOp "\x7d" || stops.any t.isKeyword then return body
    else
      let s ← r.statement
      let body := body ++ [s]
      if ← atOp ";" then inlineBody r stops n body else return body

/-- Reads block parameters up to the bar that closes them. -/
def blockParams : Nat → List Text → Parse (List Text)
  | 0, _ => throw .exhausted
  | n + 1, params => do
    if ← atOp "|" then return params
    else
      let t ← advance
      if t.kind != .ident then fail .noBlockParameter
      else
        learn t.text
        let params := params ++ [t.text]
        if ← takeOp "," then blockParams n params else return params

/-- Reads the parameters of a block if it has any. -/
def blockHead : Parse (List Text) := do
  if ← takeOp "|" then
    let params ← blockParams (← budget) []
    expectOp "|"
    return params
  else return []

/-- Reads the block after a call: `do |x|`, whose body is on the lines that follow, or an inline block
in braces. Without one the answer is `absent`. -/
def block (r : Rules) : Parse Node := do
  let t ← peek
  if t.isKeyword "do" && !(← get).loopHead then
    let _ ← advance
    let params ← blockHead
    return .block (← spanFrom t.pos) params []
  else if t.isOp "\x7b" then
    let _ ← advance
    let params ← blockHead
    let body ← inlineBody r [] (← budget) []
    expectOp "\x7d"
    return .block (← spanFrom t.pos) params body
  else return .absent

/-! ## Operands -/

/-- Reads the code of one interpolation as a line of its own. Local variables are shared with the
line around it; an interpolation without code is an empty string. -/
def interpolation (r : Rules) (span : Span) (part : StringPart) : Parse Node := do
  match lex part.pos part.text with
  | .error fault => throw fault
  | .ok tokens =>
    let outer ← get
    set { outer with cursor := Cursor.ofTokens tokens, loopHead := false }
    let node ← if ← atEnd then pure (.string span []) else do
      let n ← r.statement
      expectEnd
      pure n
    modify fun s => { outer with locals := s.locals }
    return node

/-- Joins the parts of a string from the left by `+`. A string that begins with code is joined to an
empty literal first, so the chain always starts with a string. -/
def joinParts (r : Rules) (span : Span) : Option Node → List StringPart → Parse Node
  | none, [] => return .string span []
  | some acc, [] => return acc
  | acc, part :: rest => do
    let n ← if part.isCode then interpolation r span part else pure (.string span part.text)
    match acc with
    | some left => joinParts r span (some (.call span left "+" [n] .absent)) rest
    | none =>
      if part.isCode then
        joinParts r span (some (.call span (.string span []) "+" [n] .absent)) rest
      else joinParts r span (some n) rest

/-- Reads what follows a bare name: arguments in parentheses, arguments without them, a block, or
nothing, in which case the name is a local variable. -/
def identifier (r : Rules) (t : Token) : Parse Node := do
  let next ← peek
  let known ← knows t.text
  let finish (args : List Node) : Parse Node := do
    let b ← block r
    return .call (← spanFrom t.pos) .absent t.text args b
  if next.isOp "(" && !next.spaced then
    let _ ← advance
    finish (← list r ")")
  else if !known && (← startsCommandArg) then
    finish (← commandArgs r (← budget) .empty)
  else if (next.isKeyword "do" && !(← get).loopHead) || (next.isOp "\x7b" && !known) then
    finish []
  else return .var ⟨t.pos, t.stop⟩ t.text .local

/-- Reads the pairs of a hash up to the closing brace. -/
def hashPairs (r : Rules) : Nat → List (Node × Node) → Parse (List (Node × Node))
  | 0, _ => throw .exhausted
  | n + 1, pairs => do
    if ← atOp "\x7d" then return pairs
    else
      let t ← peek
      let key ← if t.kind == .label then do
          let _ ← advance
          pure (.symbol ⟨t.pos, t.stop⟩ t.text)
        else do
          let k ← r.expr loosest
          expectOp "=>"
          pure k
      let value ← r.expr loosest
      let pairs := pairs ++ [(key, value)]
      if ← takeOp "," then hashPairs r n pairs else return pairs

/-- A hash, after its brace. -/
def hash (r : Rules) (start : Nat) : Parse Node := do
  let pairs ← hashPairs r (← budget) []
  expectOp "\x7d"
  return .hash (← spanFrom start) pairs

/-- A numeral without its underscores. -/
def plainNumeral (t : Text) : Text := t.filter (· != '_')

/-- The operand behind a minus sign at `start`: a literal is negated in place, anything else is called
with `-@`. -/
def negated (start : Nat) (operand : Node) : Parse Node := do
  match operand with
  | .integer span v => return .integer ⟨start, span.stop⟩ (-v)
  | .float span x => return .float ⟨start, span.stop⟩ x.neg
  | _ => return .call (← spanFrom start) operand "-@" [] .absent

/-- The operand a keyword starts. -/
def keywordOperand (r : Rules) (t : Token) : Parse Node := do
  let span : Span := ⟨t.pos, t.stop⟩
  if t.text == "true" || t.text == "false" then return .boolean span (t.text == "true")
  else if t.text == "nil" then return .nil span
  else if t.text == "self" then return .self span
  else if t.text == "not" then
    let operand ← r.expr notPower
    return .call (← spanFrom t.pos) operand "!" [] .absent
  else throw (.unexpected t.pos t.text)

/-- Reads the operand that begins with an operator: a sign, or something in brackets. -/
def bracketed (r : Rules) (t : Token) : Parse Node := do
  if t.text == "!" then
    let operand ← r.expr unaryPower
    return .call (← spanFrom t.pos) operand "!" [] .absent
  else if t.text == "-" then
    let operand ← r.expr unaryPower
    negated t.pos operand
  else if t.text == "(" then
    if ← takeOp ")" then return .nil (← spanFrom t.pos)
    else
      let inner ← r.statement
      expectOp ")"
      return inner
  else if t.text == "[" then
    let items ← list r "]"
    return .array (← spanFrom t.pos) items
  else if t.text == "\x7b" then hash r t.pos
  else throw (.unexpected t.pos t.text)

/-- Reads an operand without what follows it. -/
def operand (r : Rules) : Parse Node := do
  let t ← advance
  let span : Span := ⟨t.pos, t.stop⟩
  match t.kind with
  | .int =>
    match Numeral.readInteger (plainNumeral t.text) with
    | .ok v => return .integer span v
    | .error fault => throw (.integer t.text (plainNumeral t.text) fault)
  | .float =>
    match Numeral.readDecimal (plainNumeral t.text) with
    | .ok x => return .float span x
    | .error fault => throw (.float t.text (plainNumeral t.text) fault)
  | .string => joinParts r span none t.parts
  | .symbol => return .symbol span t.text
  | .ivar | .gvar | .const => return .var span t.text (.ofName t.text)
  | .ident => identifier r t
  | .keyword => keywordOperand r t
  | .op => bracketed r t
  | .label => throw (.unexpected t.pos t.text)
  | .eof => fail .endOfLine

/-- Reads the arguments and the block after a method name. -/
def callTail (r : Rules) : Parse (List Node × Node) := do
  let next ← peek
  let args ← if next.isOp "(" && !next.spaced then do
      let _ ← advance
      list r ")"
    else if ← startsCommandArg then do commandArgs r (← budget) .empty
    else pure []
  let b ← block r
  return (args, b)

/-- Applies the method calls, constant paths and indexes that follow an operand. -/
def postfixes (r : Rules) (start : Nat) : Nat → Node → Parse Node
  | 0, _ => throw .exhausted
  | n + 1, left => do
    let t ← peek
    if t.isOp "." || t.isOp "&." then
      let _ ← advance
      let name ← advance
      if name.kind == .ident || name.kind == .const || name.kind == .keyword then
        let (args, b) ← callTail r
        postfixes r start n (.call (← spanFrom start) left name.text args b)
      else fail (.noMethodNameAfter · t.text)
    else if t.isOp "::" then
      let _ ← advance
      let name ← advance
      if name.kind == .const then
        postfixes r start n (.call (← spanFrom start) left name.text [] .absent)
      else if name.kind == .ident then
        let (args, b) ← callTail r
        postfixes r start n (.call (← spanFrom start) left name.text args b)
      else fail .noNameAfterPath
    else if t.isOp "[" && !t.spaced then
      let _ ← advance
      let args ← list r "]"
      postfixes r start n (.call (← spanFrom start) left "[]" args .absent)
    else return left

/-! ## Expressions and statements -/

/-- The power of a token between operands. -/
def infixPower? (t : Token) : Option Nat :=
  if t.kind == .op || t.isKeyword "and" || t.isKeyword "or" then bindingPower? t.text else none

/-- The power an operator asks of the operators on its right: `**` associates to the right, all others
to the left. -/
def rightPower (op : Text) (power : Nat) : Nat := if op == "**" then power - 1 else power

/-- Takes in the infix operators that bind more tightly than `least`. -/
def infixes (r : Rules) (start least : Nat) : Nat → Node → Parse Node
  | 0, _ => throw .exhausted
  | n + 1, left => do
    let t ← peek
    match infixPower? t with
    | none => return left
    | some power =>
      if power ≤ least then return left
      else
        let _ ← advance
        let right ← r.expr (rightPower t.text power)
        infixes r start least n (.call (← spanFrom start) left (calledName t.text) [right] .absent)

/-- Reads an expression whose operators bind more tightly than `least`. -/
def expr (r : Rules) (least : Nat) : Parse Node := do
  let start := (← peek).pos
  let first ← operand r
  let left ← postfixes r start (← budget) first
  infixes r start least (← budget) left

/-- The node for assigning `value` to `target`. Attributes and indexes are assigned by setter calls; a
compound operator on them calls the operator on what is there. -/
def assignmentTo (target value : Node) (op : Text) (start : Nat) : Parse Node := do
  let span ← spanFrom start
  match target with
  | .var _ name scope =>
    if scope == .local then learn name
    return .assignment span name scope op value
  | .call _ receiver name args b =>
    let value := if op.isEmpty then value else .call span target op [value] .absent
    if name == "[]" && !receiver.isAbsent && b.isAbsent then
      return .call span receiver "[]=" (args ++ [value]) .absent
    else if !receiver.isAbsent && args.isEmpty && b.isAbsent && Lexer.isName name then
      return .call span receiver (name ++ "=") [value] .absent
    else fail .assignmentTarget
  | _ => fail .assignmentTarget

/-- Reads a `return` or an expression. -/
def simpleStatement (r : Rules) : Parse Node := do
  let start := (← peek).pos
  if ← takeKeyword "return" then
    let t ← peek
    if t.isEof || t.isOp ";" || t.isOp "\x7d" || t.isModifier then
      return .ret (← spanFrom start) .absent
    else
      let value ← r.expr loosest
      return .ret (← spanFrom start) value
  else r.expr loosest

/-- Takes in the conditions that follow a statement. -/
def modifiers (r : Rules) (start : Nat) : Nat → Node → Parse Node
  | 0, _ => throw .exhausted
  | n + 1, node => do
    let t ← peek
    if t.isModifier then
      let _ ← advance
      let condition ← r.expr loosest
      let span ← spanFrom start
      if t.text == "if" || t.text == "unless" then
        modifiers r start n (.cond span condition (t.text == "unless") [node] [])
      else modifiers r start n (.loop span condition (t.text == "until") [node])
    else return node

/-- Reads a statement: a `return` or an expression, an assignment to it, and trailing conditions. -/
def statement (r : Rules) : Parse Node := do
  let start := (← peek).pos
  let target ← simpleStatement r
  let t ← peek
  let assigned ←
    if t.isOp "=" then do
      let _ ← advance
      let value ← r.expr loosest
      assignmentTo target value [] start
    else match (if t.kind == .op then compound? t.text else none) with
      | some op => do
        let _ ← advance
        let value ← r.expr loosest
        assignmentTo target value op start
      | none => pure target
  modifiers r start (← budget) assigned

end Grammar

/-- The rules for constructs nested at most `n` deep. -/
def Rules.upTo : Nat → Rules
  | 0 => ⟨fun _ => throw .exhausted, throw .exhausted⟩
  | n + 1 => ⟨Grammar.expr (Rules.upTo n), Grammar.statement (Rules.upTo n)⟩

/-- How deep constructs can nest on account of one token: two levels for itself, and four for every
byte of code inside it. -/
def Token.depth (t : Token) : Nat :=
  2 + (t.parts.filter (·.isCode)).foldr (fun p n => 4 * p.text.length + 4 + n) 0

/-- A bound on how deep the constructs of a line can nest. -/
def Cursor.depth (c : Cursor) : Nat := c.current.depth + c.ahead.foldr (fun t n => t.depth + n) 0 + 2

namespace Grammar

open Parse

/-! ## Lines -/

/-- Reads `if`, `unless` or `elsif` with its condition, and the bodies after a `then`. -/
def conditional (r : Rules) : Parse Node := do
  let kw ← advance
  let condition ← r.expr loosest
  let negated := kw.text == "unless"
  if ← takeKeyword "then" then
    let consequence ← inlineBody r ["else", "end"] (← budget) []
    let alternative ← if ← takeKeyword "else" then do
        inlineBody r ["end"] (← budget) []
      else pure []
    let _ ← takeKeyword "end"
    let span ← spanFrom kw.pos
    expectEnd
    return .cond span condition negated consequence alternative
  else
    let span ← spanFrom kw.pos
    expectEnd
    return .cond span condition negated [] []

/-- A loop. -/
def loop (r : Rules) : Parse Node := do
  let kw ← advance
  modify fun s => { s with loopHead := true }
  let condition ← r.expr loosest
  modify fun s => { s with loopHead := false }
  let _ ← takeKeyword "do"
  let span ← spanFrom kw.pos
  expectEnd
  return .loop span condition (kw.text == "until") []

/-- Passes over the marks of a collecting parameter. -/
def skipStars : Nat → Parse Unit
  | 0 => return ()
  | n + 1 => do
    let t ← peek
    if t.isOp "*" || t.isOp "**" || t.isOp "&" then
      let _ ← advance
      skipStars n
    else return ()

/-- Reads the parameters of a method. Default values are read and left out. -/
def methodParams (r : Rules) (paren : Bool) : Nat → List Text → Parse (List Text)
  | 0, _ => throw .exhausted
  | n + 1, params => do
    let t ← peek
    if t.isEof || t.isOp ")" || t.isOp "=" then return params
    else
      skipStars (← budget)
      let param ← advance
      if param.kind != .ident && param.kind != .label then fail .noParameterName
      else
        learn param.text
        let next ← peek
        if param.kind == .label && !next.isOp "," && !next.isOp ")" && !next.isEof then
          let _ ← r.expr loosest
        if (← atOp "=") && (paren || param.kind == .ident) then
          let _ ← advance
          let _ ← r.expr loosest
        let params := params ++ [param.text]
        if ← takeOp "," then methodParams r paren n params else return params

/-- Reads a method header: `def name`, `def name(a, b = 1)`, `def name a, b`, or a whole method
`def name(a) = expr`. -/
def method (r : Rules) : Parse Node := do
  let kw ← advance
  let word ← advance
  if word.kind != .ident && word.kind != .const && word.kind != .keyword then fail .noMethodName
  else
    let mark ← peek
    let name ← if mark.isOp "=" && !mark.spaced then do
        let _ ← advance
        pure (word.text ++ "=")
      else pure word.text
    let paren ← takeOp "("
    let params ← methodParams r paren (← budget) []
    if paren then expectOp ")"
    let body ← if ← takeOp "=" then do
        let value ← r.expr loosest
        pure [value]
      else pure []
    let span ← spanFrom kw.pos
    expectEnd
    return .method span name params body

/-- Reads a whole line as one node. A keyword of structure over several lines is kept under its own
tag. -/
def line (r : Rules) : Parse Node := do
  let t ← peek
  let whole : Parse Node := do
    let n ← statement r
    expectEnd
    return n
  if t.kind == .keyword then
    if t.text == "if" || t.text == "unless" || t.text == "elsif" then conditional r
    else if t.text == "while" || t.text == "until" then loop r
    else if t.text == "def" then method r
    else if structuralKeywords.contains t.text then
      return .unknown ⟨t.pos, t.stop⟩ t.text t.text
    else whole
  else whole

end Grammar

/-- Reads a line of tokens as one node, with the names known to be local variables before and after
it. -/
def parseTokens (locals : List Text) (tokens : List Token) : Except SyntaxFault Node × List Text :=
  let cursor := Cursor.ofTokens tokens
  match Grammar.line (Rules.upTo cursor.depth) ⟨cursor, locals, false⟩ with
  | .ok n s => (.ok n, s.locals)
  | .error fault s => (.error fault, s.locals)

/-- Parses a line. -/
def parseLine (locals : List Text) (offset : Nat) (line : Text) : Except SyntaxFault Node × List Text :=
  match lex offset line with
  | .error fault => (.error fault, locals)
  | .ok tokens => parseTokens locals tokens

end Transpiler
