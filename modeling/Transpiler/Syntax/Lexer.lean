import Transpiler.Number.Numeral
import Transpiler.Text.Quoted

/-!
# Reading tokens

A line is cut into tokens from left to right. Spaces, tabs and carriage returns separate tokens, a
`#` outside a string ends the line, and every other byte belongs to exactly one token. Each token
is found by looking at its first byte; it takes that byte and a number of bytes after it, so the
reading always moves on.
-/

namespace Transpiler

/-! ## Tokens -/

/-- The kinds of tokens. -/
inductive TokenKind where
  | eof
  | ident
  | const
  | ivar
  | gvar
  | label
  | int
  | float
  | string
  | symbol
  | keyword
  | op
deriving DecidableEq, Repr

/-- The kind's name. -/
def TokenKind.word : TokenKind → Text
  | .eof => "eof"
  | .ident => "ident"
  | .const => "const"
  | .ivar => "ivar"
  | .gvar => "gvar"
  | .label => "label"
  | .int => "int"
  | .float => "float"
  | .string => "string"
  | .symbol => "symbol"
  | .keyword => "keyword"
  | .op => "op"

/-- A literal run or the code of an interpolation inside a string. -/
structure StringPart where
  text : Text
  pos : Nat
  isCode : Bool
deriving DecidableEq, Repr

/-- A token with its byte range in the whole source. -/
structure Token where
  kind : TokenKind
  text : Text
  parts : List StringPart
  pos : Nat
  stop : Nat
  /-- Blanks stand right before the token. -/
  spaced : Bool
deriving DecidableEq, Repr

namespace Token

/-- Whether it is this operator. -/
def isOp (t : Token) (text : Text) : Bool := t.kind == .op && t.text == text

/-- Whether it is this keyword. -/
def isKeyword (t : Token) (text : Text) : Bool := t.kind == .keyword && t.text == text

/-- Whether the line is over. -/
def isEof (t : Token) : Bool := t.kind == .eof

/-- Whether a token is a keyword that attaches a condition to the statement before it. -/
def isModifier (t : Token) : Bool :=
  t.kind == .keyword && (t.text == "if" || t.text == "unless" || t.text == "while" || t.text == "until")

end Token

/-! ## Why a line is refused -/

/-- Why a line is no program. -/
inductive SyntaxFault where
  /-- A byte that starts no token. -/
  | strayByte (offset : Nat) (b : UInt8)
  | malformedNumber (offset : Nat)
  | unterminatedString (offset : Nat)
  | unterminatedInterpolation (offset : Nat)
  | interpolatedSymbol (offset : Nat)
  /-- A certain operator had to stand here. -/
  | expected (offset : Nat) (wanted found : Text)
  | unexpected (offset : Nat) (found : Text)
  | endOfLine (offset : Nat)
  | noMethodName (offset : Nat)
  | noParameterName (offset : Nat)
  | noBlockParameter (offset : Nat)
  | noMethodNameAfter (offset : Nat) (operator : Text)
  | noNameAfterPath (offset : Nat)
  /-- What stands before an assignment operator cannot be assigned to. -/
  | assignmentTarget (offset : Nat)
  | integer (numeral : Text) (digits : Text) (fault : NumeralFault)
  | float (numeral : Text) (digits : Text) (fault : NumeralFault)
  /-- The reading took more steps than the line has room for. -/
  | exhausted
deriving DecidableEq, Repr

namespace SyntaxFault

/-- A message with its place. -/
def located (offset : Nat) (message : Text) : Text := "offset " ++ Text.ofNat offset ++ ": " ++ message

/-- The fault in words. -/
def message : SyntaxFault → Text
  | .strayByte at_ b => located at_ ("unexpected character " ++ Text.quotedByte b)
  | .malformedNumber at_ => located at_ "malformed number"
  | .unterminatedString at_ => located at_ "unterminated string"
  | .unterminatedInterpolation at_ => located at_ "unterminated interpolation"
  | .interpolatedSymbol at_ => located at_ "interpolated symbols are not supported"
  | .expected at_ wanted found =>
    located at_ ("expected " ++ Text.quoted wanted ++ ", found " ++ Text.quoted found)
  | .unexpected at_ found => located at_ ("unexpected " ++ Text.quoted found)
  | .endOfLine at_ => located at_ "unexpected end of line"
  | .noMethodName at_ => located at_ "expected method name"
  | .noParameterName at_ => located at_ "expected parameter name"
  | .noBlockParameter at_ => located at_ "expected block parameter"
  | .noMethodNameAfter at_ operator =>
    located at_ ("expected method name after " ++ Text.quoted operator)
  | .noNameAfterPath at_ => located at_ "expected name after '::'"
  | .assignmentTarget at_ => located at_ "invalid assignment target"
  | .integer numeral digits fault =>
    "integer " ++ Text.quoted numeral ++ ": strconv.ParseInt: parsing " ++ Text.quoted digits ++ ": " ++ fault.message
  | .float numeral digits fault =>
    "float " ++ Text.quoted numeral ++ ": strconv.ParseFloat: parsing " ++ Text.quoted digits ++ ": " ++ fault.message
  | .exhausted => "line too deep"

end SyntaxFault

namespace Lexer

/-- The words that are no names. -/
def keywords : List Text :=
  ["true", "false", "nil", "self", "and", "or", "not", "if", "unless", "elsif", "else", "then",
    "while", "until", "do", "end", "def", "return", "class", "module", "begin", "rescue", "ensure",
    "case", "when", "yield", "break", "next", "redo", "retry"]

/-- The operators, longer ones first. -/
def operators : List Text :=
  List.map Text.ofString ["**=", "||=", "&&=", "<=>", "===", "...",
    "**", "==", "!=", ">=", "<=", "&&", "||", "=>", "=~", "!~",
    "+=", "-=", "*=", "/=", "%=", "|=", "&=", "::", "..", "&.", "->", "<<", ">>",
    "+", "-", "*", "/", "%", "=", "<", ">", "!", "(", ")", "[", "]", "\x7b", "\x7d",
    ",", ".", "|", "&", "^", "?", ":", ";", "~"]

/-- A byte between tokens. -/
def isGap (b : UInt8) : Bool := b == ' ' || b == '\t' || b == '\r'

/-- A decimal digit. -/
def isDigit (b : UInt8) : Bool := '0' ≤ b && b ≤ '9'

/-- A capital letter. -/
def isCapital (b : UInt8) : Bool := 'A' ≤ b && b ≤ 'Z'

/-- Whether a byte can start a name: a letter, an underscore or any byte beyond ASCII. -/
def isNameStart (b : UInt8) : Bool :=
  b == '_' || ('a' ≤ b && b ≤ 'z') || isCapital b || 0x80 ≤ b

/-- A byte a name goes on with. -/
def isNameByte (b : UInt8) : Bool := isNameStart b || isDigit b

/-- A byte a numeral goes on with. -/
def isNumeralByte (b : UInt8) : Bool := isDigit b || b == '_'

/-- Whether a text is a name. -/
def isName : Text → Bool
  | [] => false
  | b :: rest => isNameStart b && rest.all isNameByte

/-- Whether the first byte of a text satisfies `p`. -/
def startsWith (p : UInt8 → Bool) : Text → Bool
  | [] => false
  | b :: _ => p b

/-- What a token is, apart from its place: its kind, its text, its parts, and how many bytes it takes
after its first. -/
structure Lexeme where
  kind : TokenKind
  text : Text
  parts : List StringPart
  extra : Nat
deriving DecidableEq, Repr

/-! ## Numbers -/

/-- The length of a fraction: a point and digits after it. -/
def fractionLength : Text → Nat
  | point :: d :: rest =>
    if point == '.' && isDigit d then 2 + (rest.takeWhile isNumeralByte).length else 0
  | _ => 0

/-- The length of a sign. -/
def signLength : Text → Nat
  | b :: _ => if b == '+' || b == '-' then 1 else 0
  | [] => 0

/-- The length of an exponent: a mark, an optional sign and at least one digit. -/
def exponentLength : Text → Nat
  | mark :: rest =>
    if mark == 'e' || mark == 'E' then
      let digits := rest.drop (signLength rest)
      if startsWith isDigit digits then
        1 + signLength rest + (digits.takeWhile isNumeralByte).length
      else 0
    else 0
  | [] => 0

/-- Whether a zero and this byte announce a base. -/
def isBaseMark (b : UInt8) : Bool :=
  b == 'x' || b == 'X' || b == 'b' || b == 'B' || b == 'o' || b == 'O'

/-- The number at the start of `s`, which begins with a digit and stands at `offset`. -/
def number (offset : Nat) (s : Text) : Except SyntaxFault Lexeme :=
  if startsWith (· == '0') s && startsWith isBaseMark (s.drop 1) then
    let length := 2 + ((s.drop 2).takeWhile isNameByte).length
    .ok ⟨.int, s.take length, [], length - 1⟩
  else
    let whole := (s.takeWhile isNumeralByte).length
    let fraction := fractionLength (s.drop whole)
    let exponent := exponentLength (s.drop (whole + fraction))
    let length := whole + fraction + exponent
    if startsWith isNameStart (s.drop length) then .error (.malformedNumber (offset + length))
    else
      let kind := if fraction = 0 ∧ exponent = 0 then TokenKind.int else TokenKind.float
      .ok ⟨kind, s.take length, [], length - 1⟩

/-! ## Strings -/

/-- What a backslash and this byte stand for between double quotes. Any byte without a meaning of its
own stands for the character with its number. -/
def unescaped (e : UInt8) : Text :=
  if e == 'n' then [10]
  else if e == 't' then [9]
  else if e == 'r' then [13]
  else if e == '0' then [0]
  else if e == 's' then [32]
  else if e == 'e' then [27]
  else if e == 'a' then [7]
  else if e == 'b' then [8]
  else String.utf8EncodeChar (Char.ofNat e.toNat)

/-- What a backslash and this byte stand for inside a string. Between single quotes only the quote
and the backslash can be escaped, and any other backslash stands for itself. -/
def escape (quote e : UInt8) : Text :=
  if quote == '\'' then
    if e == '\'' || e == '\\' then [e] else ['\\', e]
  else unescaped e

/-- The number of bytes before the brace that closes `depth` open ones. -/
def codeLength? : Nat → Text → Option Nat
  | _, [] => none
  | depth, b :: rest =>
    if b == 0x7b then (codeLength? (depth + 1) rest).map (· + 1)
    else if b == 0x7d then
      if depth ≤ 1 then some 0 else (codeLength? (depth - 1) rest).map (· + 1)
    else (codeLength? depth rest).map (· + 1)

/-- The literal run read so far, as a part unless it is empty. -/
def literalPart (text : Text) (pos : Nat) : List StringPart :=
  if text.isEmpty then [] else [⟨text, pos, false⟩]

/-- Reads a string up to its closing quote. `pos` is the offset of the rest, `literal` the run read so
far, which began at `start`, and `parts` what came before it. Gives all parts and the offset after
the closing quote. A string without any part has one empty literal. -/
def quotedParts (quote : UInt8) (pos : Nat) (literal : Text) (start : Nat) (parts : List StringPart) :
    Text → Except SyntaxFault (List StringPart × Nat)
  | [] => .error (.unterminatedString pos)
  | c :: rest =>
    if c == quote then
      let all := parts ++ literalPart literal start
      .ok (if all.isEmpty then [⟨[], start, false⟩] else all, pos + 1)
    else match rest with
      | [] => quotedParts quote (pos + 1) (literal ++ [c]) start parts []
      | d :: rest' =>
        if c == '\\' then
          quotedParts quote (pos + 2) (literal ++ escape quote d) start parts rest'
        else if quote == '"' && c == '#' && d == 0x7b then
          match codeLength? 1 rest' with
          | none => .error (.unterminatedInterpolation (pos + 2 + rest'.length))
          | some n =>
            quotedParts quote (pos + 2 + n + 1) [] (pos + 2 + n + 1)
              (parts ++ literalPart literal start ++ [⟨rest'.take n, pos + 2, true⟩])
              (rest'.drop (n + 1))
        else quotedParts quote (pos + 1) (literal ++ [c]) start parts (d :: rest')
termination_by s => s.length
decreasing_by all_goals simp_all <;> omega

/-! ## Tokens -/

/-- The symbol whose colon stands at `offset` and whose name or quote starts `rest`. -/
def symbol (offset : Nat) (rest : Text) : Except SyntaxFault Lexeme :=
  match rest with
  | [] => .error (.strayByte offset ':')
  | q :: after =>
    if q == '"' then do
      let (parts, stop) ← quotedParts q (offset + 2) [] (offset + 2) [] after
      match parts with
      | [part] =>
        if part.isCode then .error (.interpolatedSymbol stop)
        else .ok ⟨.symbol, part.text, [], stop - offset - 1⟩
      | _ => .error (.interpolatedSymbol stop)
    else
      let name := rest.takeWhile isNameByte
      let mark := match rest.dropWhile isNameByte with
        | [] => []
        | m :: more =>
          if m == '?' || m == '!' || (m == '=' && !startsWith (fun b => b == '=' || b == '>') more)
          then [m] else []
      .ok ⟨.symbol, name ++ mark, [], (name ++ mark).length⟩

/-- The question or exclamation mark that ends a name, unless an equals sign follows it. -/
def nameMark : Text → Text
  | [] => []
  | m :: more =>
    if (m == '?' || m == '!') && !startsWith (· == '=') more then [m] else []

/-- The kind of a name that is no label. -/
def nameKind (name : Text) : TokenKind :=
  if keywords.contains name then .keyword
  else if startsWith isCapital name then .const
  else .ident

/-- The label, keyword, constant or identifier at the start of `s`. -/
def name (s : Text) : Lexeme :=
  let stem := s.takeWhile isNameByte
  let text := stem ++ nameMark (s.drop stem.length)
  let after := s.drop text.length
  if startsWith (· == ':') after && !startsWith (· == ':') (after.drop 1) then
    ⟨.label, text, [], text.length⟩
  else ⟨nameKind text, text, [], text.length - 1⟩

/-- The variable behind the sigil `c`. -/
def sigil (kind : TokenKind) (c : UInt8) (rest : Text) : Lexeme :=
  let name := rest.takeWhile isNameByte
  ⟨kind, c :: name, [], name.length⟩

/-- The operator a text starts with. -/
def operator? (s : Text) : Option Text := operators.find? (·.isPrefixOf s)

/-- The token that starts with the byte `c` at `offset`, with `rest` after it. -/
def lexeme (offset : Nat) (c : UInt8) (rest : Text) : Except SyntaxFault Lexeme :=
  if isDigit c then number offset (c :: rest)
  else if c == '"' || c == '\'' then do
    let (parts, stop) ← quotedParts c (offset + 1) [] (offset + 1) [] rest
    .ok ⟨.string, (c :: rest).take (stop - offset), parts, stop - offset - 1⟩
  else if c == '@' && startsWith isNameStart rest then .ok (sigil .ivar c rest)
  else if c == '$' && startsWith isNameStart rest then .ok (sigil .gvar c rest)
  else if c == ':' && startsWith (fun b => isNameStart b || b == '"') rest then
    symbol offset rest
  else if isNameStart c then .ok (name (c :: rest))
  else match operator? (c :: rest) with
    | some op => .ok ⟨.op, op, [], op.length - 1⟩
    | none => .error (.strayByte offset c)

end Lexer

open Lexer in
/-- The tokens of a text that starts at `offset`, ended by one token of kind `eof`. -/
def lex (offset : Nat) (s : Text) : Except SyntaxFault (List Token) :=
  let gap := (s.takeWhile isGap).length
  let start := offset + gap
  let spaced := gap != 0
  match h : s.dropWhile isGap with
  | [] => .ok [⟨.eof, [], [], start, start, spaced⟩]
  | c :: rest =>
    if c == '#' then .ok [⟨.eof, [], [], start, start, spaced⟩]
    else do
      let l ← lexeme start c rest
      let more ← lex (start + 1 + l.extra) (rest.drop l.extra)
      .ok (⟨l.kind, l.text, l.parts, start, start + 1 + l.extra, spaced⟩ :: more)
termination_by s.length
decreasing_by
  have hle : (s.dropWhile isGap).length ≤ s.length := (List.dropWhile_suffix isGap).length_le
  rw [h] at hle
  simp at hle ⊢
  omega

end Transpiler
