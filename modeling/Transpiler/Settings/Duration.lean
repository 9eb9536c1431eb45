import Transpiler.Number.Numeral

/-!
# Durations

A duration is written as numbers with units, such as `1h30m` or `2.5ms`, and counted in nanoseconds in 64
bits. Whole units are exact; a fraction of a unit is computed in doubles and cut off.
-/

namespace Transpiler.Duration

/-- The nanoseconds of a unit. -/
def unit? (t : Text) : Option Nat :=
  if t = "ns" then some 1
  else if t = "us" || t = "µs" || t = "μs" then some 1000
  else if t = "ms" then some 1000000
  else if t = "s" then some 1000000000
  else if t = "m" then some 60000000000
  else if t = "h" then some 3600000000000
  else none

/-- The value of digits in front of the point, if it fits. -/
def wholeDigits? (t : Text) : Option Nat :=
  let n := Numeral.decimalValue t
  if n ≤ Nat.pow 2 63 then some n else none

/-- The digits after the point as a number, and the power of ten that divides it. Digits past what 63 bits
hold are left out. -/
def fractionDigits : Nat → Nat → Text → Nat × Nat
  | value, scale, [] => (value, scale)
  | value, scale, b :: rest =>
    let next := value * 10 + (b.toNat - 48)
    if value > (Nat.pow 2 63 - 1) / 10 || next > Nat.pow 2 63 then (value, scale)
    else fractionDigits next (scale * 10) rest

/-- The product of two doubles that are not negative, cut off. -/
def productFloor (x y : Binary64) : Nat :=
  match x.value, y.value with
  | .finite _ m p, .finite _ n q => ((Binary64.ofScaled false (m * n) (p + q)).truncate?.getD 0).toNat
  | _, _ => 0

/-- `value / scale` of a unit. -/
def fractionOf (unit : Nat) (value scale : Nat) : Nat :=
  productFloor (.ofInt value) (.ofRatio false unit scale)

/-- One number with its unit at the start of a text, and the rest. -/
def part? (t : Text) : Option (Nat × Text) := do
  let whole := t.takeWhile Numeral.isDigit
  let afterWhole := t.dropWhile Numeral.isDigit
  let afterPoint := if afterWhole.head? == some '.' then some (afterWhole.drop 1) else none
  let fraction := (afterPoint.getD []).takeWhile Numeral.isDigit
  if whole.isEmpty && fraction.isEmpty then none
  let rest := (afterPoint.map fun t => t.dropWhile Numeral.isDigit).getD afterWhole
  let inUnit (b : UInt8) : Bool := b != '.' && !Numeral.isDigit b
  let unit ← unit? (rest.takeWhile inUnit)
  let n ← wholeDigits? whole
  if n > Nat.pow 2 63 / unit then none
  let (value, scale) := fractionDigits 0 1 fraction
  let total := n * unit + fractionOf unit value scale
  if total > Nat.pow 2 63 then none else some (total, rest.dropWhile inUnit)

/-- The sum of the numbers with units that make up a text. -/
def parts? : Nat → Nat → Text → Option Nat
  | _, sum, [] => some sum
  | 0, _, _ => none
  | fuel + 1, sum, t => do
    let (n, rest) ← part? t
    if sum + n > Nat.pow 2 63 then none else parts? fuel (sum + n) rest

/-- The duration of a text without its sign. -/
def unsigned? (t : Text) : Option Nat :=
  if t = "0" then some 0 else if t.isEmpty then none else parts? t.length 0 t

/-- Reads a duration. -/
def parse? (t : Text) : Option Int64 :=
  let signed := t.head? == some '-' || t.head? == some '+'
  (unsigned? (if signed then t.drop 1 else t)).bind fun n =>
    if t.head? == some '-' then some (Int64.ofInt (-(n : Int)))
    else if n < Nat.pow 2 63 then some (Int64.ofNat n)
    else none

end Transpiler.Duration
