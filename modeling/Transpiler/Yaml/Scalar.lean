import Transpiler.Number.Numeral

/-!
# The meaning of unquoted scalars

An unquoted scalar stands for nothing, a truth value, a number, a moment or a text, and its spelling alone
decides which. Texts with the spelling of something else have to be quoted.
-/

namespace Transpiler.Yaml

/-- What a plain scalar means. -/
inductive Meaning where
  | null
  | bool (b : Bool)
  | int (n : Int)
  | float (x : Binary64)
  | moment
  | text
deriving DecidableEq, Repr

/-! ## Moments -/

/-- A number of one or two digits at the start of a text, and the rest. -/
def shortNumber? : Text → Option (Nat × Text)
  | a :: rest =>
    if !Numeral.isDigit a then none
    else match rest with
      | b :: rest' =>
        if Numeral.isDigit b then some (Numeral.decimalValue [a, b], rest')
        else some (Numeral.decimalValue [a], rest)
      | [] => some (Numeral.decimalValue [a], [])
  | [] => none

/-- A text without the byte it starts with. -/
def after? (b : UInt8) : Text → Option Text
  | [] => none
  | c :: rest => if c == b then some rest else none

/-- The days in a month. -/
def daysIn (year month : Nat) : Nat :=
  if month = 2 then if year % 4 = 0 ∧ (year % 100 ≠ 0 ∨ year % 400 = 0) then 29 else 28
  else if month = 4 ∨ month = 6 ∨ month = 9 ∨ month = 11 then 30
  else 31

/-- What follows a date. -/
def afterDate? (t : Text) : Option Text := do
  let digits := t.take 4
  if digits.length ≠ 4 || !digits.all Numeral.isDigit then none
  let (month, t) ← shortNumber? (← after? '-' (t.drop 4))
  let (day, t) ← shortNumber? (← after? '-' t)
  if 1 ≤ month ∧ month ≤ 12 ∧ 1 ≤ day ∧ day ≤ daysIn (Numeral.decimalValue digits) month then some t
  else none

/-- What follows a fraction of a second, if there is one. -/
def afterFraction : Text → Text
  | p :: d :: rest =>
    if (p == '.' || p == ',') && Numeral.isDigit d then
      rest.dropWhile Numeral.isDigit
    else p :: d :: rest
  | t => t

/-- What follows a time. -/
def afterTime? (t : Text) : Option Text := do
  let (hour, t) ← shortNumber? t
  let (minute, t) ← shortNumber? (← after? ':' t)
  let (second, t) ← shortNumber? (← after? ':' t)
  if hour < 24 ∧ minute < 60 ∧ second < 60 then some (afterFraction t) else none

/-- Whether it is a time zone. -/
def isZone : Text → Bool
  | [z] => z == 'Z'
  | [s, a, b, c, d, e] =>
    (s == '+' || s == '-') && c == ':' && [a, b, d, e].all Numeral.isDigit
      && Numeral.decimalValue [a, b] ≤ 24 && Numeral.decimalValue [d, e] < 60
  | _ => false

/-- Whether a text is a date, perhaps with a time of day. -/
def isMoment (t : Text) : Bool :=
  match afterDate? t with
  | none => false
  | some [] => true
  | some (b :: rest) =>
    if b == ' ' then afterTime? rest == some []
    else if b == 'T' || b == 't' then
      ((afterTime? rest).map isZone).getD false
    else false

/-! ## Numbers -/

/-- The whole number a text denotes: signed in 64 bits, or unsigned in 64 bits. -/
def whole? (t : Text) : Option Int :=
  let read (digits : Text) : Option Nat :=
    if digits.isEmpty then none
    else
      let (base, ds) := Numeral.splitBase digits
      (Numeral.readDigits base 0 ds).toOption
  match t with
  | [] => none
  | b :: rest =>
    if b == '-' then
      (read rest).bind fun n => if n ≤ Nat.pow 2 63 then some (-(n : Int)) else none
    else if b == '+' then
      (read rest).bind fun n => if n < Nat.pow 2 63 then some (n : Int) else none
    else (read t).map fun n => (n : Int)

/-- The finite double a text denotes. -/
def fractional? (t : Text) : Option Binary64 :=
  let finite (x : Binary64) : Option Binary64 :=
    if x = Binary64.infinity false then none else some x
  match t with
  | [] => none
  | b :: rest =>
    if b == '-' then ((Numeral.decimal? rest).bind finite).map (·.neg)
    else if b == '+' then (Numeral.decimal? rest).bind finite
    else (Numeral.decimal? t).bind finite

/-- What a text that starts like a number means. Underscores may divide its digits. -/
def numeric (t : Text) : Meaning :=
  if isMoment t then .moment
  else
    let plain := t.filter (· != '_'.toUInt8)
    match whole? plain, fractional? plain with
    | some n, _ => .int n
    | none, some x => .float x
    | none, none => .text

/-! ## All scalars -/

/-- The spellings of null. -/
def nullWords : List Text := ["", "~", "null", "Null", "NULL"]

/-- The spellings of true. -/
def trueWords : List Text := ["true", "True", "TRUE"]

/-- The spellings of false. -/
def falseWords : List Text := ["false", "False", "FALSE"]

/-- The spellings of what is not a number. -/
def nanWords : List Text := [".nan", ".NaN", ".NAN"]

/-- The spellings of infinity. -/
def infinityWords : List Text := [".inf", ".Inf", ".INF", "+.inf", "+.Inf", "+.INF"]

/-- The spellings of minus infinity. -/
def minusInfinityWords : List Text := ["-.inf", "-.Inf", "-.INF"]

/-- A digit or sign is first. -/
def startsLikeNumber : Text → Bool
  | [] => false
  | b :: _ => Numeral.isDigit b || b == '+' || b == '-'

/-- The meaning of a plain scalar. -/
def Meaning.ofText (t : Text) : Meaning :=
  if nullWords.contains t then .null
  else if trueWords.contains t then .bool true
  else if falseWords.contains t then .bool false
  else if nanWords.contains t then .float .nan
  else if infinityWords.contains t then .float (.infinity false)
  else if minusInfinityWords.contains t then .float (.infinity true)
  else if t.head? == some '.' then
    match fractional? t with
    | some x => .float x
    | none => .text
  else if startsLikeNumber t then numeric t
  else .text

/-! ## Older spellings -/

/-- Spellings of truth values in older versions of the format, which are quoted for their sake. -/
def olderBools : List Text :=
  ["y", "Y", "yes", "Yes", "YES", "on", "On", "ON", "n", "N", "no", "No", "NO", "off", "Off", "OFF"]

/-- A digit or underscore. -/
def isDigitOrUnderscore (b : UInt8) : Bool := Numeral.isDigit b || b == '_'

/-- Whether a text is one or two digits below sixty. -/
def isSixtieth (t : Text) : Bool :=
  match shortNumber? t with
  | some (n, []) => n < 60
  | _ => false

/-- Whether a text is a number in base sixty, as older versions of the format have them. -/
def isSexagesimal (t : Text) : Bool :=
  let t := match t with
    | b :: rest => if b == '+' || b == '-' then rest else t
    | [] => []
  let (whole, fraction) := Text.cut '.' t
  match whole.splitOn ':'.toUInt8 with
  | first :: second :: rest =>
    (first.head?.map Numeral.isDigit).getD false && first.all isDigitOrUnderscore
      && (second :: rest).all isSixtieth && (fraction.getD []).all isDigitOrUnderscore
  | _ => false

/-- Whether a text can stand unquoted and still mean itself, to all readers of the format. -/
def meansItself (t : Text) : Bool :=
  Meaning.ofText t == .text && !isSexagesimal t && !olderBools.contains t

end Transpiler.Yaml
