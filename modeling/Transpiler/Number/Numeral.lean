import Transpiler.Number.Binary64
import Transpiler.Text.Basic

/-!
# Reading numerals

Integer numerals may carry a base in front (`0x`, `0o`, `0b`, or a bare leading zero for octal) and
denote 64-bit signed integers. Decimal numerals with a point or an exponent denote the nearest
double. A numeral is refused as malformed or as out of range.
-/

namespace Transpiler

/-- Why a numeral is refused. -/
inductive NumeralFault where
  | malformed
  | outOfRange
deriving DecidableEq, Repr

/-- The fault in words. -/
def NumeralFault.message : NumeralFault → Text
  | .malformed => "invalid syntax"
  | .outOfRange => "value out of range"

namespace Numeral

/-- The value of a digit in bases up to thirty-six. -/
def digit? (b : UInt8) : Option Nat :=
  if '0' ≤ b && b ≤ '9' then some (b.toNat - 48)
  else if 'a' ≤ b && b ≤ 'z' then some (b.toNat - 87)
  else if 'A' ≤ b && b ≤ 'Z' then some (b.toNat - 55)
  else none

/-- Reads digits in a base, from left to right after the value `acc`. A value past 64 bits is refused at
the digit that makes it so, before the digits after it are looked at. -/
def readDigits (base : Nat) : Nat → Text → Except NumeralFault Nat
  | acc, [] => .ok acc
  | acc, b :: rest =>
    match digit? b with
    | none => .error .malformed
    | some d =>
      if base ≤ d then .error .malformed
      else if Nat.pow 2 64 ≤ acc * base + d then .error .outOfRange
      else readDigits base (acc * base + d) rest

/-- The base a numeral announces, and the digits after the announcement. -/
def splitBase (t : Text) : Nat × Text :=
  match t with
  | z :: c :: d :: rest =>
    if z == '0' then
      if c == 'b' || c == 'B' then (2, d :: rest)
      else if c == 'o' || c == 'O' then (8, d :: rest)
      else if c == 'x' || c == 'X' then (16, d :: rest)
      else (8, c :: d :: rest)
    else (10, t)
  | z :: rest => if z == '0' then (8, rest) else (10, t)
  | [] => (10, [])

/-- The 64-bit signed integer a numeral denotes. -/
def readInteger (t : Text) : Except NumeralFault Int64 := do
  if t.isEmpty then .error .malformed
  else
    let (base, digits) := splitBase t
    let n ← readDigits base 0 digits
    if Nat.pow 2 63 ≤ n then .error .outOfRange else .ok (Int64.ofNat n)

/-- The value of decimal digits. -/
def decimalValue (t : Text) : Nat := t.foldl (fun n b => n * 10 + (b.toNat - 48)) 0

/-- The double nearest to `m * 10 ^ e`, where `m` has `width` digits. Exponents far outside the range of
doubles are decided without the power. -/
def ofDecimal (m : Nat) (width : Nat) (e : Int) : Binary64 :=
  if m = 0 then ⟨0⟩
  else if 400 < e + width then Binary64.infinity false
  else if e + width < -400 then ⟨0⟩
  else if 0 ≤ e then Binary64.ofRatio false (m * Nat.pow 10 e.toNat) 1
  else Binary64.ofRatio false m (Nat.pow 10 (-e).toNat)

/-- A decimal digit. -/
def isDigit (b : UInt8) : Bool := '0' ≤ b && b ≤ '9'

/-- The exponent written after the mark `e`: an optional sign and digits. -/
def readExponent : Text → Int
  | [] => 0
  | b :: rest =>
    if b == '-' then -(decimalValue rest : Int)
    else if b == '+' then decimalValue rest
    else decimalValue (b :: rest)

/-- The double a decimal numeral denotes: digits, a fraction, an exponent. A numeral past the greatest
double is refused. -/
def readDecimal (t : Text) : Except NumeralFault Binary64 :=
  let whole := t.takeWhile isDigit
  let afterWhole := t.dropWhile isDigit
  let fraction := match afterWhole with
    | b :: rest => if b == '.' then rest.takeWhile isDigit else []
    | [] => []
  let afterFraction := match afterWhole with
    | b :: rest => if b == '.' then rest.dropWhile isDigit else afterWhole
    | [] => []
  let exponent := readExponent (afterFraction.drop 1)
  let x := ofDecimal (decimalValue (whole ++ fraction)) (whole ++ fraction).length (exponent - fraction.length)
  if x = Binary64.infinity false then .error .outOfRange else .ok x

/-- The digits of an exponent, after its sign. -/
def exponentDigits? (t : Text) : Option Int :=
  let digits := match t with
    | b :: rest => if b == '-' || b == '+' then rest else t
    | [] => []
  if digits.isEmpty || !digits.all isDigit then none else some (readExponent t)

/-- The exponent after the digits of a numeral; none written means zero. -/
def exponentPart? : Text → Option Int
  | [] => some 0
  | b :: rest =>
    if b == 'e' || b == 'E' then exponentDigits? rest else none

/-- The double nearest to what an unsigned decimal numeral denotes: digits on at least one side of the
point, and perhaps an exponent. -/
def decimal? (t : Text) : Option Binary64 :=
  let whole := t.takeWhile isDigit
  let (fraction, rest) := match t.dropWhile isDigit with
    | b :: rest =>
      if b == '.' then (rest.takeWhile isDigit, rest.dropWhile isDigit)
      else ([], b :: rest)
    | [] => ([], [])
  let digits := whole ++ fraction
  if digits.isEmpty then none
  else (exponentPart? rest).map fun e =>
    ofDecimal (decimalValue digits) digits.length (e - fraction.length)

end Numeral

end Transpiler
