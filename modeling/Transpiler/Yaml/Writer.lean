import Transpiler.Script.Numeral
import Transpiler.Text.Rune
import Transpiler.Yaml.Scalar

/-!
# Writing data

Trees of maps, lists and scalars are the common form of everything that is dumped. Data is written in blocks with two
blanks per level. A text stands unquoted if it then means itself and nothing in it looks like structure; else it is
quoted, plainly if all its characters can be shown and with escapes otherwise. A text of several lines is written line
by line, and bytes that are no text in base 64.
-/

namespace Transpiler

/-- A tree of maps, lists and scalars. A map keeps the order in which its entries are given. -/
inductive Data where
  /-- The place of a map that is not there. -/
  | nothing
  /-- A list that was never begun. -/
  | noList
  | bool (b : Bool)
  | int (n : Int)
  | float (x : Binary64)
  | text (t : Text)
  | list (items : List Data)
  | map (entries : List (Text × Data))
deriving Inhabited

namespace Yaml

/-! ## Characters -/

/-- A line break. -/
def isBreak (c : Char) : Bool :=
  c == '\n' || c == '\r' || c == '\u0085' || c == '\u2028' || c == '\u2029'

/-- A character shown as it is. -/
def isShowable (c : Char) : Bool :=
  let n := c.toNat
  n == 10 || (0x20 ≤ n && n ≤ 0x7E) || (0xA0 ≤ n && n ≤ 0xFFFD && n != 0xFEFF)

/-- A space or tab. -/
def isBlank (c : Char) : Bool := c == ' ' || c == '\t'

/-- The characters that mean something at the start of a scalar. -/
def indicators : List Char :=
  ['#', ',', '[', ']', '\x7b', '\x7d', '&', '*', '!', '|', '>', '\'', '"', '%', '@', '\x60']

/-- Whether a text starts with an indicator, or with one that counts before a blank. -/
def startsWithIndicator (cs : List Char) : Bool :=
  ['-', '-', '-'].isPrefixOf cs || ['.', '.', '.'].isPrefixOf cs ||
  match cs with
  | [] => false
  | c :: rest =>
    indicators.contains c || ((c == '?' || c == ':' || c == '-') && (rest.head?.map isBlank).getD true)

/-- Whether a text holds a colon before a blank, or a number sign after one. -/
def holdsIndicator : List Char → Bool
  | [] => false
  | [c] => c == ':'
  | c :: d :: rest =>
    (c == ':' && isBlank d) || ((isBlank c || isBreak c || c == '\x00') && d == '#')
      || holdsIndicator (d :: rest)

/-- Whether two characters stand side by side in a text, the first and the second of a kind. -/
def holdsPair (first second : Char → Bool) : List Char → Bool
  | c :: d :: rest => (first c && second d) || holdsPair first second (d :: rest)
  | _ => false

/-! ## Styles -/

/-- How a scalar is written. -/
inductive Style where
  | plain
  | singleQuoted
  | doubleQuoted
  | literal
deriving DecidableEq, Repr

/-- Whether a blank or a line break stands at an end of a text. -/
def hasLooseEnds (cs : List Char) : Bool :=
  let loose (c : Char) := c == ' ' || isBreak c
  (cs.head?.map loose).getD false || (cs.getLast?.map loose).getD false

/-- Whether a text holds a character that only an escape can show; a tab is none. -/
def holdsHidden (cs : List Char) : Bool := cs.any fun c => c != '\t' && !isShowable c

/-- A space ends a line. -/
def holdsTrailing (cs : List Char) : Bool := holdsPair (· == ' ') isBreak cs

/-- Whether it may stand plain. -/
def allowsPlain (cs : List Char) : Bool :=
  !hasLooseEnds cs && !cs.any isBreak && !cs.contains '\t' && !holdsHidden cs
    && !startsWithIndicator cs && !holdsIndicator cs

/-- Whether single quotes do. -/
def allowsSingle (cs : List Char) : Bool :=
  !holdsPair isBreak (· == ' ') cs && !holdsTrailing cs && !cs.contains '\t' && !holdsHidden cs

/-- Whether a literal block does. -/
def allowsLiteral (cs : List Char) : Bool :=
  cs.getLast? != some ' ' && !holdsTrailing cs && !holdsHidden cs

/-- The style of a scalar. -/
def Style.of (t : Text) (cs : List Char) : Style :=
  if cs.contains '\n' then if allowsLiteral cs then .literal else .doubleQuoted
  else if !meansItself t then .doubleQuoted
  else if allowsPlain cs then .plain
  else if allowsSingle cs then .singleQuoted
  else .doubleQuoted

/-! ## Scalars -/

/-- A run of `n` spaces. -/
def pad (n : Nat) : Text := List.replicate n ' '

/-- Characters with the lines after the first set in. A line break other than the common one does not begin
a line of its own. -/
def setIn (indent : Nat) (each : Char → Text) : (begun : Bool) → List Char → Text
  | _, [] => []
  | begun, c :: rest =>
    if isBreak c then String.utf8EncodeChar c ++ setIn indent each true rest
    else (if begun then pad indent else []) ++ each c ++ setIn indent each false rest

/-- A character in single quotes. -/
def singleQuotedChar (c : Char) : Text := if c == '\'' then "''" else String.utf8EncodeChar c

/-- A hex digit in capitals. -/
def capitalDigit (n : Nat) : UInt8 := if n < 10 then (n + 48).toUInt8 else (n + 55).toUInt8

/-- Hex digits in capitals. -/
def capitalDigits : (width n : Nat) → Text
  | 0, _ => []
  | width + 1, n => capitalDigits width (n / 16) ++ [capitalDigit (n % 16)]

/-- The letter of an escape. -/
def escapeLetter? (n : Nat) : Option Char :=
  match n with
  | 0x00 => some '0'
  | 0x07 => some 'a'
  | 0x08 => some 'b'
  | 0x09 => some 't'
  | 0x0A => some 'n'
  | 0x0B => some 'v'
  | 0x0C => some 'f'
  | 0x0D => some 'r'
  | 0x1B => some 'e'
  | 0x22 => some '"'
  | 0x5C => some '\\'
  | 0x85 => some 'N'
  | 0xA0 => some '_'
  | 0x2028 => some 'L'
  | 0x2029 => some 'P'
  | _ => none

/-- The escape of a character. -/
def escape (c : Char) : Text :=
  let n := c.toNat
  match escapeLetter? n with
  | some l => '\\' :: String.utf8EncodeChar l
  | none =>
    if n ≤ 0xFF then "\\x" ++ capitalDigits 2 n
    else if n ≤ 0xFFFF then "\\u" ++ capitalDigits 4 n
    else "\\U" ++ capitalDigits 8 n

/-- A character in double quotes. -/
def doubleQuotedChar (c : Char) : Text :=
  if !isShowable c || isBreak c || c == '"' || c == '\\' then escape c else String.utf8EncodeChar c

/-- What is written after the mark of a text of several lines: the indentation if it cannot be told from
the first line, and what becomes of the line breaks at the end. -/
def literalHints (cs : List Char) : Text :=
  let loose := match cs with
    | c :: _ => c == ' ' || isBreak c
    | [] => false
  let ending : Text := match cs.reverse with
    | a :: b :: _ => if !isBreak a then "-" else if isBreak b then "+" else []
    | [a] => if isBreak a then "+" else "-"
    | [] => "-"
  (if loose then "2" else []) ++ ending

/-- A text line by line. The line of the mark ends where the first character stands. -/
def literalLines (indent : Nat) (cs : List Char) : Text :=
  match cs with
  | [] => []
  | c :: _ =>
    if isBreak c then setIn indent String.utf8EncodeChar true cs
    else "\n" ++ setIn indent String.utf8EncodeChar true cs

/-- A digit of base 64. -/
def base64Digit (n : Nat) : UInt8 :=
  if n < 26 then (n + 65).toUInt8
  else if n < 52 then (n + 71).toUInt8
  else if n < 62 then (n - 4).toUInt8
  else if n = 62 then '+'
  else '/'

/-- Bytes in base 64. -/
def base64 : Text → Text
  | a :: b :: c :: rest =>
    let n := a.toNat * 65536 + b.toNat * 256 + c.toNat
    [base64Digit (n / 262144), base64Digit (n / 4096 % 64), base64Digit (n / 64 % 64),
      base64Digit (n % 64)] ++ base64 rest
  | [a, b] =>
    let n := a.toNat * 65536 + b.toNat * 256
    [base64Digit (n / 262144), base64Digit (n / 4096 % 64), base64Digit (n / 64 % 64), '=']
  | [a] =>
    let n := a.toNat * 65536
    [base64Digit (n / 262144), base64Digit (n / 4096 % 64), '=', '=']
  | [] => []

/-- A text as a scalar, whose later lines are set in by `indent`. -/
def scalarText (indent : Nat) (t : Text) : Text :=
  if !t.isUtf8 then "!!binary " ++ base64 t
  else
    let cs := t.runes.map Rune.shown
    match Style.of t cs with
    | .plain => t
    | .singleQuoted => "'" ++ setIn indent singleQuotedChar false cs ++ "'"
    | .doubleQuoted => "\"" ++ cs.flatMap doubleQuotedChar ++ "\""
    | .literal => "|" ++ literalHints cs ++ literalLines indent cs

/-- A double as a scalar. -/
def floatText (x : Binary64) : Text :=
  match x.value with
  | .nan => ".nan"
  | .infinite negative => Script.signText negative ++ ".inf"
  | .finite negative m q => Script.signText negative ++ Script.compactDecimal (Decimal.shortest m q)

/-! ## Blocks -/

/-- A line, ended unless it has ended. -/
def ended (t : Text) : Text := if t.getLast? == some '\n' then t else t ++ "\n"

/-- What stands before the first item or entry. -/
def opening (afterKey : Bool) (indent : Nat) : Text :=
  if afterKey then "\n" ++ pad (indent + 2) else " "

mutual

/-- Data after a key or a dash at `indent`, up to the end of its last line. Lists and maps go on from
`indent + 2`: after a key they begin on the next line, after a dash on the same. -/
def written (afterKey : Bool) (indent : Nat) (d : Data) : Text :=
  match d with
  | .nothing => " \x7b\x7d\n"
  | .noList => " []\n"
  | .bool b => if b then " true\n" else " false\n"
  | .int n => " " ++ Text.ofInt n ++ "\n"
  | .float x => " " ++ floatText x ++ "\n"
  | .text t => ended (" " ++ scalarText (indent + 2) t)
  | .list items =>
    if items.isEmpty then " []\n"
    else opening afterKey indent ++ Text.join (pad (indent + 2)) (writtenItems (indent + 2) items)
  | .map entries =>
    if entries.isEmpty then " \x7b\x7d\n"
    else opening afterKey indent ++ Text.join (pad (indent + 2)) (writtenEntries (indent + 2) entries)

/-- The items of a list. -/
def writtenItems (indent : Nat) (ds : List Data) : List Text :=
  match ds with
  | [] => []
  | d :: rest => ("-" ++ written false indent d) :: writtenItems indent rest

/-- The entries of a map. -/
def writtenEntries (indent : Nat) (es : List (Text × Data)) : List Text :=
  match es with
  | [] => []
  | (key, d) :: rest =>
    (scalarText indent key ++ ":" ++ written true indent d) :: writtenEntries indent rest

end

/-- A map as a document. -/
def document (entries : List (Text × Data)) : Text := (writtenEntries 0 entries).flatten

end Yaml

end Transpiler
