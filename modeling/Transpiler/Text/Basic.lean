/-!
# Byte texts

All program text is carried as a list of bytes. Source text need not be well-formed UTF-8, every
offset in the project counts bytes, and slices may cut a character in two; a list of bytes says
all of that directly. String literals coerce to their UTF-8 bytes.
-/

namespace Transpiler

/-- A text is the list of its bytes. -/
abbrev Text := List UInt8

namespace Text

/-- The UTF-8 bytes of a string. -/
def ofString (s : String) : Text := s.toUTF8.data.toList

instance : Coe String Text := ⟨ofString⟩

instance : Coe Char UInt8 := ⟨Char.toUInt8⟩

/-- The decimal digits of `n`. -/
def ofNat (n : Nat) : Text := (Nat.toDigits 10 n).map Char.toUInt8

/-- The decimal numeral of an integer, with a minus sign when it is negative. -/
def ofInt : Int → Text
  | .ofNat n => ofNat n
  | .negSucc n => '-' :: ofNat (n + 1)

/-- The hexadecimal digit of a number below sixteen, in lower case. -/
def hexDigit (n : Nat) : UInt8 :=
  if n < 10 then (n + 48).toUInt8 else (n + 87).toUInt8

/-- The `width` lowest hexadecimal digits of `n`, most significant first. -/
def hexDigits : (width n : Nat) → Text
  | 0, _ => []
  | w + 1, n => hexDigits w (n / 16) ++ [hexDigit (n % 16)]

/-- The texts of a list with a separator between neighbours. -/
def join (sep : Text) (ts : List Text) : Text := sep.intercalate ts

/-- The line feed, which ends a line. -/
abbrev newline : UInt8 := 10

/-- The lines of a text: its pieces between line feeds. There is always at least one. -/
def lines : Text → List Text
  | [] => [[]]
  | b :: rest =>
    if b == newline then [] :: lines rest
    else match lines rest with
      | [] => [[b]]
      | line :: more => (b :: line) :: more

/-- Drops one leading byte if it is `b`. -/
def dropByte (b : UInt8) : Text → Text
  | [] => []
  | c :: rest => if c == b then rest else c :: rest

/-- Cuts a text at the first occurrence of a byte; without one the second part is `none`. -/
def cut (b : UInt8) : Text → Text × Option Text
  | [] => ([], none)
  | c :: rest =>
    if c == b then ([], some rest)
    else
      let (head, tail) := cut b rest
      (c :: head, tail)

/-- Whether the lower of two texts in byte order comes first. -/
def le : Text → Text → Bool
  | [], _ => true
  | _ :: _, [] => false
  | a :: s, b :: t => a < b || (a == b && le s t)

/-- The distinct texts of a list in ascending byte order. -/
def sorted (ts : List Text) : List Text := ts.eraseDups.mergeSort le

/-- Whether `part` occurs somewhere in a text. -/
def hasPart (part : Text) : Text → Bool
  | [] => part.isEmpty
  | b :: rest => part.isPrefixOf (b :: rest) || hasPart part rest

end Text

end Transpiler
