import Transpiler.Text.Classes

/-!
# Quoting in diagnostics

A diagnostic shows a piece of input between quotes. Printable characters stand for themselves, the
quote and the backslash are escaped, and everything else is written with a short escape or by
number, so that a message never holds a raw control character or a stray byte.
-/

namespace Transpiler.Text

/-- The letter of a short escape. -/
def shortEscape? (c : Char) : Option Char :=
  if c = '\x07' then some 'a'
  else if c = '\x08' then some 'b'
  else if c = '\x0c' then some 'f'
  else if c = '\n' then some 'n'
  else if c = '\r' then some 'r'
  else if c = '\t' then some 't'
  else if c = '\x0b' then some 'v'
  else none

/-- A character as it stands between quotes of the kind `quote`. -/
def escapedChar (quote c : Char) : Text :=
  if c = quote ∨ c = '\\' then '\\' :: String.utf8EncodeChar c
  else if isPrintable c then String.utf8EncodeChar c
  else match shortEscape? c with
    | some e => ['\\', e.toUInt8]
    | none =>
      if c.toNat < 0x20 ∨ c.toNat = 0x7f then "\\x" ++ hexDigits 2 c.toNat
      else if c.toNat < 0x10000 then "\\u" ++ hexDigits 4 c.toNat
      else "\\U" ++ hexDigits 8 c.toNat

/-- A rune as quotes hold it. -/
def escapedRune (quote : Char) : Rune → Text
  | .char c => escapedChar quote c
  | .stray b => "\\x" ++ hexDigits 2 b.toNat

/-- The text in quotes. -/
def quoted (t : Text) : Text :=
  "\"" ++ (runes t).flatMap (escapedRune '"') ++ "\""

/-- The character with the code point of a byte, between single quotes. -/
def quotedByte (b : UInt8) : Text :=
  "'" ++ escapedChar '\'' (Char.ofNat b.toNat) ++ "'"

end Transpiler.Text
