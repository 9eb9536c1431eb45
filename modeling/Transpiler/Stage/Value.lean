import Transpiler.Number.Numeral
import Transpiler.Script.Numeral
import Transpiler.Text.Classes

/-!
# Values of scripts

A script writes a number with the fewest digits that read back, positionally from `1e-6` up to below `1e21` and with
an exponent otherwise. A text that is no numeral gives what is not a number.

Lists and records never change once made, so a value is a tree; only elements have a life of their own and are
referred to. What refers to them is a parameter: a script looks them up by id, the stage numbers them.
-/

namespace Transpiler.Stage

open Script (digitText signText positional)

/-- A decimal with one digit before the point and an exponent with its sign. -/
def scientificText (d : Decimal) : Text :=
  let e := d.point - 1
  let exponent := (if e < 0 then "e-" else "e+") ++ Text.ofNat e.natAbs
  match d.digits with
  | [] => "0"
  | [first] => digitText [first] ++ exponent
  | first :: rest => digitText [first] ++ "." ++ digitText rest ++ exponent

/-- A number as text. Zero has no sign. -/
def numberText (x : Binary64) : Text :=
  match x.value with
  | .nan => "NaN"
  | .infinite negative => signText negative ++ "Infinity"
  | .finite negative m q =>
    let d := Decimal.shortest m q
    if m = 0 then "0"
    else signText negative ++ if -6 < d.point ∧ d.point ≤ 21 then positional d else scientificText d

/-- Whether a number is finite. -/
def isFinite (x : Binary64) : Bool :=
  match x.value with
  | .finite _ _ _ => true
  | _ => false

/-- The value of digits in a base; nothing without digits. -/
def digitsIn? (base : Nat) (t : Text) : Option Nat :=
  if t.isEmpty then none
  else t.foldlM (fun n b => do
    let d ← Numeral.digit? b
    if d < base then some (n * base + d) else none) 0

/-- The whole number written with the mark of its base in front. -/
def based? : Text → Option Nat
  | z :: mark :: digits =>
    if z != '0' then none
    else if mark == 'x' || mark == 'X' then digitsIn? 16 digits
    else if mark == 'o' || mark == 'O' then digitsIn? 8 digits
    else if mark == 'b' || mark == 'B' then digitsIn? 2 digits
    else none
  | _ => none

/-- Reads a number without sign. -/
def unsigned? (t : Text) : Option Binary64 :=
  if t = "Infinity" then some (.infinity false) else Numeral.decimal? t

/-- The number of a text without blanks around it. -/
def signed? (t : Text) : Option Binary64 :=
  match t with
  | [] => some (.ofInt 0)
  | b :: rest =>
    if b == '-' then (unsigned? rest).map (·.neg)
    else if b == '+' then unsigned? rest
    else match based? t with
      | some n => some (.ofInt n)
      | none => unsigned? t

/-- The number a text stands for. -/
def numberOfText (t : Text) : Binary64 := (signed? t.trimmed).getD .nan

/-- A value in which elements are referred to by `ρ`. -/
inductive Value (ρ : Type) where
  | undefined
  | null
  | bool (b : Bool)
  | number (x : Binary64)
  | text (t : Text)
  | list (items : List (Value ρ))
  | record (fields : List (Text × Value ρ))
  | element (r : ρ)
deriving Inhabited

/-- A value as a script writes it, with elements looked up by id. -/
abbrev Literal := Value Text

/-! ## Fields -/

section Fields

variable {α : Type}

/-- The field under `key`. -/
def getField? (key : Text) (fields : List (Text × α)) : Option α :=
  (fields.find? fun f => f.1 == key).map (·.2)

/-- Sets a key: in its place if it is there, at the end if it is new. -/
def putField (key : Text) (value : α) : List (Text × α) → List (Text × α)
  | [] => [(key, value)]
  | f :: rest => if f.1 == key then (key, value) :: rest else f :: putField key value rest

/-- The position a key names in a list: a numeral without leading zeros, below `2 ^ 32 - 1`. -/
def listIndex? (key : Text) : Option Nat :=
  if key.isEmpty || !key.all Numeral.isDigit || (key.length > 1 && key.head? == some '0') then
    none
  else
    let n := Numeral.decimalValue key
    if n < Nat.pow 2 32 - 1 then some n else none

/-- Whether a field with a position stands before another one. -/
def indexLe (a b : Text × α) : Bool :=
  match listIndex? a.1, listIndex? b.1 with
  | some i, some j => i ≤ j
  | _, _ => true

/-- Fields in the order in which they are seen: positions first, ascending, then as they were set. -/
def orderedFields (fields : List (Text × α)) : List (Text × α) :=
  (fields.filter fun f => (listIndex? f.1).isSome).mergeSort indexLe ++ fields.filter fun f => (listIndex? f.1).isNone

end Fields

namespace Value

variable {ρ : Type}

/-! ## Conversions -/

/-- Whether it is undefined. -/
def isUndefined : Value ρ → Bool
  | .undefined => true
  | _ => false

/-- Whether it has parts. -/
def isCompound : Value ρ → Bool
  | .list _ | .record _ | .element _ => true
  | _ => false

/-- The text of any record and of any element. -/
def objectText : Text := "[object Object]"

mutual

/-- A value as text. A list is the texts of its items with commas between them. -/
def toText (v : Value ρ) : Text :=
  match v with
  | .undefined => "undefined"
  | .null => "null"
  | .bool b => if b then "true" else "false"
  | .number x => numberText x
  | .text t => t
  | .list items => Text.join "," (itemTexts items)
  | .record _ | .element _ => objectText

/-- The texts of the items of a list, in which nothing leaves no trace. -/
def itemTexts (vs : List (Value ρ)) : List Text :=
  match vs with
  | [] => []
  | .undefined :: rest => [] :: itemTexts rest
  | .null :: rest => [] :: itemTexts rest
  | v :: rest => toText v :: itemTexts rest

end

/-- The value as a number. -/
def toNumber (v : Value ρ) : Binary64 :=
  match v with
  | .undefined => .nan
  | .null => .ofInt 0
  | .bool b => .ofInt (if b then 1 else 0)
  | .number x => x
  | _ => numberOfText v.toText

/-- A value as a whole number, toward zero; infinite ones have none. -/
def toInteger? (v : Value ρ) : Option Int :=
  let x := v.toNumber
  if x.isNaN then some 0 else x.truncate?

mutual

/-- The value of a literal: elements are looked up, and of two fields with one key the later counts. -/
def resolve (find? : Text → Option Nat) (v : Literal) : Value Nat :=
  match v with
  | .undefined => .undefined
  | .null => .null
  | .bool b => .bool b
  | .number x => .number x
  | .text t => .text t
  | .list items => .list (resolveAll find? items)
  | .record fields => .record (resolveFields find? fields)
  | .element id =>
    match find? id with
    | some r => .element r
    | none => .null

/-- Resolves literals. -/
def resolveAll (find? : Text → Option Nat) (vs : List Literal) : List (Value Nat) :=
  match vs with
  | [] => []
  | v :: rest => resolve find? v :: resolveAll find? rest

/-- The fields of a record: the first place of a key, with its last value. -/
def resolveFields (find? : Text → Option Nat) (fs : List (Text × Literal)) : List (Text × Value Nat) :=
  match fs with
  | [] => []
  | (key, v) :: rest =>
    let later := resolveFields find? rest
    (key, (getField? key later).getD (resolve find? v)) :: later.filter (·.1 != key)

end

end Value

/-! ## Units -/

/-- Half of a character beyond the basic plane, in three bytes that no well-formed text holds. -/
def surrogate (n : Nat) : Text :=
  [0xED, (0x80 + n / 64 % 64).toUInt8, (0x80 + n % 64).toUInt8]

/-- The units a character counts for. -/
def unitsOf : Rune → List Text
  | .char c =>
    if c.toNat < 0x10000 then [String.utf8EncodeChar c]
    else
      let n := c.toNat - 0x10000
      [surrogate (0xD800 + n / 1024), surrogate (0xDC00 + n % 1024)]
  | r => [r.bytes]

/-- The units of a text, of which characters beyond the basic plane count for two. -/
def units (t : Text) : List Text := t.runes.flatMap unitsOf

end Transpiler.Stage
