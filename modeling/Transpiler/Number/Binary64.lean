/-!
# Double precision numbers

A double is its 64 bits. Its value is read off as a sign, a whole number `m` and a power of two,
and everything else (comparison, products, conversion to whole numbers) is exact arithmetic on
those followed by one rounding, so nothing here depends on the machine's own floating point.
-/

namespace Transpiler

/-- A double precision number, by its bits. -/
structure Binary64 where
  bits : UInt64
deriving DecidableEq, Repr

namespace Binary64

/-- What the bits of a double stand for. -/
inductive Value where
  | nan
  | infinite (negative : Bool)
  /-- The number `± m * 2 ^ q`. -/
  | finite (negative : Bool) (m : Nat) (q : Int)
deriving DecidableEq, Repr

/-- The sign bit. -/
def isNegative (x : Binary64) : Bool := x.bits.toNat / Nat.pow 2 63 == 1

/-- The exponent bits. -/
def biasedExponent (x : Binary64) : Nat := x.bits.toNat / Nat.pow 2 52 % Nat.pow 2 11

/-- The stored part of the significand. -/
def fraction (x : Binary64) : Nat := x.bits.toNat % Nat.pow 2 52

/-- The value of a double. Subnormal numbers share the least exponent and lack the hidden bit. -/
def value (x : Binary64) : Value :=
  if x.biasedExponent = 2047 then
    if x.fraction = 0 then .infinite x.isNegative else .nan
  else if x.biasedExponent = 0 then .finite x.isNegative x.fraction (-1074)
  else .finite x.isNegative (Nat.pow 2 52 + x.fraction) ((x.biasedExponent : Int) - 1075)

theorem isNegative_of_infinite {x : Binary64} {negative : Bool} (h : x.value = .infinite negative) :
    x.isNegative = negative := by
  unfold value at h
  repeat' split at h
  all_goals first | exact Value.infinite.inj h | cases h

theorem isNegative_of_finite {x : Binary64} {negative : Bool} {m : Nat} {q : Int}
    (h : x.value = .finite negative m q) : x.isNegative = negative := by
  unfold value at h
  repeat' split at h
  all_goals first | exact (Value.finite.inj h).1 | cases h

/-- Whether it is no number. -/
def isNaN (x : Binary64) : Bool := x.value == .nan

/-- The bits of the positive infinity, beyond every finite magnitude. -/
def infinityBits : Nat := 2047 * Nat.pow 2 52

/-- The double with the given sign and the bits of its magnitude. -/
def ofMagnitude (negative : Bool) (magnitude : Nat) : Binary64 :=
  ⟨((if negative then Nat.pow 2 63 else 0) + magnitude).toUInt64⟩

/-- The number that stands for every result that is not a number. -/
def nan : Binary64 := ⟨0x7ff8000000000000⟩

/-- The infinity of a sign. -/
def infinity (negative : Bool) : Binary64 := ofMagnitude negative infinityBits

/-- Turns the sign. -/
def neg (x : Binary64) : Binary64 := ⟨x.bits ^^^ 0x8000000000000000⟩

/-- The quotient `num / den` rounded to a whole number, half going to the even neighbour. -/
def roundHalfEven (num den : Nat) : Nat :=
  let q := num / den
  let r := num % den
  if 2 * r < den then q
  else if den < 2 * r then q + 1
  else q + q % 2

/-- The bits of the magnitude nearest to `num / den`, at most those of infinity. The unit in the last
place is `2 ^ e`, where `e` is the least exponent at which the quotient has at most 53 bits. -/
def magnitudeOfRatio (num den : Nat) : Nat :=
  if num = 0 ∨ den = 0 then 0
  else
    let guess : Int := (num.log2 : Int) - (den.log2 : Int) - 52
    let scaled (e : Int) : Nat × Nat :=
      if 0 ≤ e then (num, den * Nat.pow 2 e.toNat) else (num * Nat.pow 2 (-e).toNat, den)
    let e := max (-1074) (if (scaled guess).1 / (scaled guess).2 < Nat.pow 2 52 then guess - 1 else guess)
    let magnitude := (e + 1074).toNat * Nat.pow 2 52 + roundHalfEven (scaled e).1 (scaled e).2
    min magnitude infinityBits

/-- The double nearest to `± num / den`. -/
def ofRatio (negative : Bool) (num den : Nat) : Binary64 :=
  ofMagnitude negative (magnitudeOfRatio num den)

/-- The double nearest to `± m * 2 ^ q`. -/
def ofScaled (negative : Bool) (m : Nat) (q : Int) : Binary64 :=
  if 0 ≤ q then ofRatio negative (m * Nat.pow 2 q.toNat) 1 else ofRatio negative m (Nat.pow 2 (-q).toNat)

/-- The nearest to an integer. -/
def ofInt (n : Int) : Binary64 := ofRatio (n < 0) n.natAbs 1

/-- The product with a whole number, rounded once. -/
def scale (x : Binary64) (k : Nat) : Binary64 :=
  match x.value with
  | .nan => nan
  | .infinite s => if k = 0 then nan else infinity s
  | .finite s m q => ofScaled s (m * k) q

/-- The whole part of a finite double, toward zero. -/
def truncate? (x : Binary64) : Option Int :=
  match x.value with
  | .finite s m q =>
    let n : Int := if 0 ≤ q then ((m * Nat.pow 2 q.toNat : Nat) : Int) else ((m / Nat.pow 2 (-q).toNat : Nat) : Int)
    some (if s then -n else n)
  | _ => none

end Binary64

end Transpiler
