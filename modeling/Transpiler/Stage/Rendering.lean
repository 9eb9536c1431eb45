import Transpiler.Stage.Value

/-!
# Values as lines of output

Scalars are written as their texts; lists, records and elements are written out in full, field by field. An
element that contains itself cannot be written out: then the value's plain text stands in.
-/

namespace Transpiler.Stage

/-- A control character, quote or backslash escaped; other bytes as they are. -/
def escapedByte (b : UInt8) : Text :=
  if b == '"' then "\\\""
  else if b == '\\' then "\\\\"
  else if b == 8 then "\\b"
  else if b == 9 then "\\t"
  else if b == 10 then "\\n"
  else if b == 12 then "\\f"
  else if b == 13 then "\\r"
  else if b < 0x20 then "\\u" ++ Text.hexDigits 4 b.toNat
  else [b]

/-- The inside of a quoted text. Halves of characters are escaped. -/
def escaped : Text → Text
  | 0xED :: b :: c :: rest =>
    if 0xA0 ≤ b then
      "\\u" ++ Text.hexDigits 4 (0xD000 + b.toNat % 64 * 64 + c.toNat % 64) ++ escaped rest
    else 0xED :: b :: c :: escaped rest
  | b :: rest => escapedByte b ++ escaped rest
  | [] => []

/-- The text between quotes. -/
def quotedText (t : Text) : Text := "\"" ++ escaped t ++ "\""

/-- The fields between braces. -/
def bracedFields (fields : List (Text × Text)) : Text :=
  "\x7b" ++ Text.join "," ((orderedFields fields).map fun f => quotedText f.1 ++ ":" ++ f.2) ++ "\x7d"

namespace Value

variable {ρ : Type}

mutual

/-- A value written out, if the elements in it can be. -/
def written? (ofElement : ρ → Option Text) (v : Value ρ) : Option Text :=
  match v with
  | .undefined | .null => some "null"
  | .bool b => some (if b then "true" else "false")
  | .number x => some (if isFinite x then numberText x else "null")
  | .text t => some (quotedText t)
  | .list items =>
    (writtenAll? ofElement items).map fun parts => "[" ++ Text.join "," parts ++ "]"
  | .record fields => (writtenFields? ofElement fields).map bracedFields
  | .element r => ofElement r

/-- The values as JSON. -/
def writtenAll? (ofElement : ρ → Option Text) (vs : List (Value ρ)) : Option (List Text) :=
  match vs with
  | [] => some []
  | v :: rest =>
    match written? ofElement v, writtenAll? ofElement rest with
    | some part, some parts => some (part :: parts)
    | _, _ => none

/-- The fields of a record written out. Those without a value are left out. -/
def writtenFields? (ofElement : ρ → Option Text) (fs : List (Text × Value ρ)) : Option (List (Text × Text)) :=
  match fs with
  | [] => some []
  | (key, v) :: rest =>
    match written? ofElement v, writtenFields? ofElement rest with
    | some part, some parts => some (if v.isUndefined then parts else (key, part) :: parts)
    | _, _ => none

end

end Value

/-- An element's fields. -/
abbrev Element := List (Text × Value Nat)

/-- An element written out. The elements around it are `outer`; one of them inside it is a circle. As many
levels as there are elements suffice, since more would repeat one. -/
def writtenElement? (elements : Array Element) : Nat → List Nat → Nat → Option Text
  | 0, _, _ => none
  | levels + 1, outer, r =>
    if outer.contains r then none
    else
      (Value.writtenFields? (writtenElement? elements levels (r :: outer)) ((elements[r]?).getD [])).map bracedFields

/-- A value as it appears in a line of output. -/
def Value.shown (elements : Array Element) (v : Value Nat) : Text :=
  if v.isCompound then
    (v.written? (writtenElement? elements (elements.size + 1) [])).getD v.toText
  else v.toText

end Transpiler.Stage
