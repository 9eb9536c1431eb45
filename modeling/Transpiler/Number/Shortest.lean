import Transpiler.Number.Binary64

/-!
# Shortest decimals

A finite double is written with the fewest decimal digits that read back as the same double; of
the decimals with that many digits, the one nearest to the value is taken. The search is exact: for
one, two, … seventeen digits, the value's two neighbours on that decimal grid are tested against
the interval of numbers that round to the double.
-/

namespace Transpiler

/-- The decimal fraction `0.d₁d₂d₃… * 10 ^ point`, without trailing zeros. Zero has no digits. -/
structure Decimal where
  digits : List Nat
  point : Int
deriving DecidableEq, Repr

namespace Decimal

/-- Ten to an integer power, as numerator and denominator. -/
def powerOfTen (e : Int) : Nat × Nat :=
  if 0 ≤ e then (Nat.pow 10 e.toNat, 1) else (1, Nat.pow 10 (-e).toNat)

/-- Two to an integer power, as numerator and denominator. -/
def powerOfTwo (e : Int) : Nat × Nat :=
  if 0 ≤ e then (Nat.pow 2 e.toNat, 1) else (1, Nat.pow 2 (-e).toNat)

/-- The decimal digits of a whole number, most significant first; zero has none. -/
def digitsOf (n : Nat) : List Nat :=
  if n = 0 then [] else (Nat.toDigits 10 n).map fun c => c.toNat - 48

/-- The number of digits before the point of `num / den`: negative when zeros follow the point. -/
def pointOf (num den : Nat) : Int :=
  ((digitsOf (num * Nat.pow 10 400 / den)).length : Int) - 400

/-- The decimal for the whole number `n` times `10 ^ e`. -/
def ofWhole (n : Nat) (e : Int) : Decimal :=
  let ds := digitsOf n
  { digits := (ds.reverse.dropWhile (· == 0)).reverse, point := ds.length + e }

/-- The numbers that round to `m * 2 ^ q`, as the ends of an interval in units of `2 ^ (q - 2)`: half a
unit to either side, or a quarter below a power of two. The ends belong to it when `m` is even. -/
structure Rounding where
  low : Nat
  high : Nat
  closed : Bool

/-- The interval of a finite double. -/
def roundingOf (m : Nat) (q : Int) : Rounding where
  low := if m = Nat.pow 2 52 ∧ -1074 < q then 4 * m - 1 else 4 * m - 2
  high := 4 * m + 2
  closed := m % 2 == 0

/-- The decimal with `n` digits nearest to `m * 2 ^ q` that rounds to it, if one does. -/
def withDigits? (m : Nat) (q : Int) (point : Int) (n : Nat) : Option Decimal :=
  let two := powerOfTwo (q - 2)
  let ten := powerOfTen (n - point)
  let r := roundingOf m q
  -- in these units the value is `num / den`, and grid points are whole numbers
  let num := 4 * m * two.1 * ten.1
  let den := two.2 * ten.2
  let inside (c : Nat) : Bool :=
    let low := r.low * two.1 * ten.1
    let high := r.high * two.1 * ten.1
    if r.closed then low ≤ c * den && c * den ≤ high else low < c * den && c * den < high
  let below := num / den
  let above := below + 1
  let chosen : Option Nat :=
    if inside below then
      if inside above ∧ (above * den - num < num - below * den ∨
          (above * den - num = num - below * den ∧ above % 2 = 0)) then some above
      else some below
    else if inside above then some above
    else none
  chosen.map fun c => ofWhole c (point - n)

/-- The first `n` in the list at which a decimal is found. -/
def firstWith (m : Nat) (q : Int) (point : Int) : List Nat → Decimal
  | [] => ⟨[], 0⟩
  | n :: rest =>
    match withDigits? m q point n with
    | some d => d
    | none => firstWith m q point rest

/-- The shortest decimal that reads back as `m * 2 ^ q`. Seventeen digits always suffice. -/
def shortest (m : Nat) (q : Int) : Decimal :=
  if m = 0 then ⟨[], 0⟩
  else
    let two := powerOfTwo q
    firstWith m q (pointOf (m * two.1) two.2) ((List.range 17).map (· + 1))

end Decimal

end Transpiler
