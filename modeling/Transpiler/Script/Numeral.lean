import Transpiler.Number.Shortest
import Transpiler.Text.Basic

/-!
# Numbers of generated code

A float is written with the fewest digits that read back. Literals switch to an exponent below
`1e-4` and from `1e6` on, and always show that they are floats; delays are written out in full.
-/

namespace Transpiler.Script

/-- Digits as text. -/
def digitText (ds : List Nat) : Text := ds.map fun d => (d + 48).toUInt8

/-- The sign, if negative. -/
def signText (negative : Bool) : Text := if negative then "-" else []

/-- A decimal written out without exponent. -/
def positional (d : Decimal) : Text :=
  let whole := if d.point ≤ 0 then ("0" : Text)
    else digitText (d.digits.take d.point.toNat ++ List.replicate (d.point.toNat - d.digits.length) 0)
  let fraction := digitText (List.replicate (-d.point).toNat 0 ++ d.digits.drop d.point.toNat)
  if d.digits.length ≤ d.point.toNat then whole else whole ++ "." ++ fraction

/-- An exponent with its sign and at least two digits. -/
def exponentText (e : Int) : Text :=
  let digits := Text.ofNat e.natAbs
  (if e < 0 then "e-" else "e+") ++ (if digits.length < 2 then "0" ++ digits else digits)

/-- A decimal with one digit before the point and an exponent. -/
def scientific (d : Decimal) : Text :=
  match d.digits with
  | [] => "0"
  | [first] => digitText [first] ++ exponentText (d.point - 1)
  | first :: rest => digitText [first] ++ "." ++ digitText rest ++ exponentText (d.point - 1)

/-- Whether a decimal is written with an exponent: below `1e-4` and from `1e6` on. -/
def needsExponent (d : Decimal) : Bool :=
  !d.digits.isEmpty && (d.point - 1 < -4 || 6 ≤ d.point - 1)

/-- The shorter form of a decimal. -/
def compactDecimal (d : Decimal) : Text := if needsExponent d then scientific d else positional d

/-- A decimal that reads as a float. -/
def literalDecimal (d : Decimal) : Text :=
  if needsExponent d then scientific d
  else
    let text := positional d
    if text.contains '.' then text else text ++ ".0"

/-- The literal for a double. -/
def floatLiteral (x : Binary64) : Text :=
  match x.value with
  | .nan => "NaN"
  | .infinite negative => signText negative ++ "Infinity"
  | .finite negative m q => signText negative ++ literalDecimal (Decimal.shortest m q)

/-- A double without exponent. -/
def floatInFull (x : Binary64) : Text :=
  match x.value with
  | .nan => "NaN"
  | .infinite negative => (if negative then "-" else "+") ++ ("Inf" : Text)
  | .finite negative m q => signText negative ++ positional (Decimal.shortest m q)

end Transpiler.Script
