import Transpiler.Wire.Schema
import Transpiler.Number.Binary64

/-!
# Records and documents

The content of a serialization: a header with comments and diagnostics, and a tree of records. A record
may be absent where its place is optional; whether a tree obeys the schemas is for the writer to check.
-/

namespace Transpiler.Wire

/-- A byte range as a start and a length. -/
structure Location where
  start : UInt32
  length : UInt32
deriving DecidableEq, Repr

/-- The start of the source. -/
def Location.zero : Location := ⟨0, 0⟩

/-- The end of a range. A start and a length of 32 bits never wrap around here. -/
def Location.stop (l : Location) : Nat := l.start.toNat + l.length.toNat

mutual

/-- The records of a document. -/
inductive Record where
  | absent
  | mk (type : RecordType) (id : UInt32) (loc : Location) (flags : UInt32) (fields : List Value)

/-- The values of fields. -/
inductive Value where
  | node (r : Record)
  | optNode (r : Record)
  | nodes (rs : List Record)
  | const (name : Text)
  | consts (names : List Text)
  | loc (l : Option Location)
  | optLoc (l : Option Location)
  | string (t : Text)
  | integer (negative : Bool) (magnitude : UInt64)
  | double (x : Binary64)
  | uint (n : UInt32)
  /-- A value of an encoding that no schema has. -/
  | other (kind : UInt8)

end

instance : Inhabited Record := ⟨.absent⟩
instance : Inhabited Value := ⟨.other 0⟩

/-- Whether there is no record. -/
def Record.isAbsent : Record → Bool
  | .absent => true
  | .mk .. => false

namespace Value

/-- The encoding of a value, if a schema can ask for it. -/
def kind? : Value → Option FieldKind
  | .node _ => some .node
  | .optNode _ => some .optNode
  | .nodes _ => some .nodes
  | .const _ => some .const
  | .consts _ => some .consts
  | .loc _ => some .loc
  | .optLoc _ => some .optLoc
  | .string _ => some .string
  | .integer .. => some .integer
  | .double _ => some .double
  | .uint _ => some .uint
  | .other _ => none

/-- The kind in words. -/
def kindWord (v : Value) : Text :=
  match v, v.kind? with
  | _, some k => k.word
  | .other n, none => "field(" ++ Text.ofNat n.toNat ++ ")"
  | _, none => []

/-- An integer by sign and size. -/
def ofInt64 (i : Int64) : Value := .integer (i < 0) (UInt64.ofNat i.toInt.natAbs)

/-- The integer of a sign and a magnitude, if it fits into 64 bits. -/
def int64? (negative : Bool) (magnitude : UInt64) : Option Int64 :=
  if negative then
    if magnitude.toNat > Nat.pow 2 63 then none else some (Int64.ofInt (-magnitude.toNat))
  else if magnitude.toNat > Nat.pow 2 63 - 1 then none
  else some (Int64.ofInt magnitude.toNat)

end Value

/-- A comment's place. -/
structure Comment where
  kind : UInt8
  loc : Location
deriving DecidableEq, Repr

/-- An error or a warning. -/
structure Notice where
  message : Text
  loc : Location
  level : UInt8
deriving DecidableEq, Repr

/-- The format's version. -/
structure Version where
  major : UInt8
  minor : UInt8
  patch : UInt8
deriving DecidableEq, Repr

namespace Version

/-- The version that is written and whose major number is read. -/
def current : Version := ⟨1, 4, 0⟩

/-- No version. -/
def zero : Version := ⟨0, 0, 0⟩

/-- The version in words. -/
def text (v : Version) : Text :=
  Text.join "." ([v.major, v.minor, v.patch].map fun n => Text.ofNat n.toNat)

end Version

/-- What a document holds. -/
structure Document where
  version : Version
  encoding : Text
  startLine : Int64
  comments : List Comment
  errors : List Notice
  warnings : List Notice
  root : Record

/-- The bytes it starts with. -/
def magic : Text := "PRISM"

/-- How deep records may nest. -/
def maxDepth : Nat := 1024

end Transpiler.Wire
