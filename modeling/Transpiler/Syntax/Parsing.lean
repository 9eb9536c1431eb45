import Transpiler.Syntax.Lexer
import Transpiler.Syntax.Node

/-!
# The state of reading a line

A cursor stands on one token and sees those ahead of it. The last token ends the line and the cursor
never moves past it. Besides the cursor, reading a line keeps the names known to be local variables,
which stay known when the line fails, and whether a `do` belongs to an enclosing loop.
-/

namespace Transpiler

/-- A place among tokens. -/
structure Cursor where
  current : Token
  ahead : List Token
  /-- The end of the token last passed, or the start of the line. -/
  lastEnd : Nat
deriving Repr

namespace Cursor

/-- Before the first token. -/
def ofTokens : List Token → Cursor
  | [] => ⟨⟨.eof, [], [], 0, 0, false⟩, [], 0⟩
  | t :: rest => ⟨t, rest, t.pos⟩

/-- The cursor one token further on; the end of the line is never passed. -/
def next (c : Cursor) : Cursor :=
  if c.current.isEof then c
  else match c.ahead with
    | [] => c
    | t :: rest => ⟨t, rest, c.current.stop⟩

/-- The token after the current one. At the end of the line it is the current one. -/
def second (c : Cursor) : Token := c.ahead.headD c.current

end Cursor

/-- The parser's state. -/
structure Parsing where
  cursor : Cursor
  locals : List Text
  /-- A `do` here opens the body of an enclosing loop and not a block. -/
  loopHead : Bool
deriving Repr

/-- A reading of part of a line. The state survives a failure. -/
abbrev Parse := EStateM SyntaxFault Parsing

namespace Parse

/-- The current token. -/
def peek : Parse Token := return (← get).cursor.current

/-- The token after it. -/
def peekSecond : Parse Token := return (← get).cursor.second

/-- Passes a token. -/
def advance : Parse Token := do
  let s ← get
  set { s with cursor := s.cursor.next }
  return s.cursor.current

/-- Whether an operator is next. -/
def atOp (op : Text) : Parse Bool := return (← peek).isOp op

/-- Whether a keyword is next. -/
def atKeyword (word : Text) : Parse Bool := return (← peek).isKeyword word

/-- Whether the line is over. -/
def atEnd : Parse Bool := return (← peek).isEof

/-- Moves on if the current token is a certain operator, and says whether it was. -/
def takeOp (op : Text) : Parse Bool := do
  if ← atOp op then
    let _ ← advance
    return true
  else return false

/-- Moves on if the current token is a certain keyword, and says whether it was. -/
def takeKeyword (word : Text) : Parse Bool := do
  if ← atKeyword word then
    let _ ← advance
    return true
  else return false

/-- Fails at the current token. -/
def fail {α : Type} (fault : Nat → SyntaxFault) : Parse α := do throw (fault (← peek).pos)

/-- Takes a certain operator, which must stand here. -/
def expectOp (op : Text) : Parse Unit := do
  unless ← takeOp op do
    let t ← peek
    throw (.expected t.pos op t.text)

/-- Expects the line to be over. -/
def expectEnd : Parse Unit := do
  unless ← atEnd do
    let t ← peek
    throw (.unexpected t.pos t.text)

/-- The span from `start` to the token last taken. -/
def spanFrom (start : Nat) : Parse Span := return ⟨start, (← get).cursor.lastEnd⟩

/-- Remembers a name as a local variable. -/
def learn (name : Text) : Parse Unit :=
  modify fun s => { s with locals := if s.locals.contains name then s.locals else name :: s.locals }

/-- Whether a local is known. -/
def knows (name : Text) : Parse Bool := return (← get).locals.contains name

/-- A bound on the number of tokens that can still be taken. -/
def budget : Parse Nat := return (← get).cursor.ahead.length + 1

end Parse

end Transpiler
