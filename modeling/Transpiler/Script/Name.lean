import Transpiler.Text.Classes

/-!
# Strings and names of generated code

A string value is written between double quotes. Quotes, backslashes and control characters are escaped, and so are
the characters that matter to markup and the two line separators, so that the literal never breaks a line. A stray
byte is written as the replacement character. As a binding, a source name has its predicate or bang suffix spelled
out, and a reserved word gets an underscore; as a property, a name that cannot follow a dot goes in brackets as a
string.
-/

namespace Transpiler.Script

/-- How one character is written in a string literal. -/
def quotedChar (c : Char) : Text :=
  if c = '"' then "\\\""
  else if c = '\\' then "\\\\"
  else if c = '\x08' then "\\b"
  else if c = '\x0c' then "\\f"
  else if c = '\n' then "\\n"
  else if c = '\r' then "\\r"
  else if c = '\t' then "\\t"
  else if c.toNat < 0x20 ∨ c = '<' ∨ c = '>' ∨ c = '&' ∨ c = '\u2028' ∨ c = '\u2029' then
    "\\u" ++ Text.hexDigits 4 c.toNat
  else String.utf8EncodeChar c

/-- The string literal of a text. -/
def quote (t : Text) : Text :=
  "\"" ++ (t.runes.map Rune.shown).flatMap quotedChar ++ "\""

/-- Words that name no variable. -/
def reservedWords : List Text :=
  List.map Text.ofString ["arguments", "await", "break", "case", "catch", "class", "const", "continue", "debugger",
    "default", "delete", "do", "else", "enum", "eval", "export", "extends", "false", "finally",
    "for", "function", "if", "implements", "import", "in", "instanceof", "interface", "let", "new",
    "null", "package", "private", "protected", "public", "return", "static", "super", "switch",
    "this", "throw", "true", "try", "typeof", "var", "void", "while", "with", "yield"]

/-- A letter a name may start with. -/
def isNameStart (c : Char) : Bool := c == '_' || c == '$' || Text.isLetter c

/-- How one character of a source name is spelled in a binding. -/
def bindingChar (first : Bool) (c : Char) : Text :=
  if c = '?' then "_q"
  else if c = '!' then "_b"
  else if c = '=' then "_set"
  else if isNameStart c then String.utf8EncodeChar c
  else if !first && Text.isDecimalDigit c then String.utf8EncodeChar c
  else "_"

/-- The characters of a source name in a binding, before reserved words are avoided. -/
def bindingChars : List Char → Text
  | [] => []
  | c :: rest => bindingChar true c ++ rest.flatMap (bindingChar false)

/-- The variable for a name. -/
def binding (name : Text) : Text :=
  let spelled := bindingChars (name.runes.map Rune.shown)
  if spelled.isEmpty || reservedWords.contains spelled then spelled ++ "_" else spelled

/-- Whether a name can follow a dot. -/
def isProperty (name : Text) : Bool :=
  match name.runes.map Rune.shown with
  | [] => false
  | c :: rest => isNameStart c && rest.all fun d => isNameStart d || Text.isDecimalDigit d

/-- Access to a property. -/
def member (name : Text) : Text :=
  if isProperty name then "." ++ name else "[" ++ quote name ++ "]"

/-- A property's key in an object. -/
def propertyKey (name : Text) : Text := if isProperty name then name else quote name

/-- Whether a method name assigns to a property: a property name followed by an equals sign. -/
def isSetter (name : Text) : Bool :=
  1 < name.length && name.getLast? == some '=' && isProperty name.dropLast

end Transpiler.Script
