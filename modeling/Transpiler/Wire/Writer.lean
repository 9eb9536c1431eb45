import Transpiler.Wire.Record
import Transpiler.Wire.Item
import Transpiler.Fault.Reports

/-!
# Writing documents

Records are written in one pass that collects the constants they name into a pool, each constant once.
The pass refuses a tree that does not obey the schemas. The header, which holds the place of the pool,
is put in front.
-/

namespace Transpiler.Wire

/-- Why a tree cannot be written. -/
inductive TreeFault where
  | missingNode
  | missingLocation
  | unknownType (byte : UInt8)
  | fieldCount (name : Text) (got want : Nat)
  | fieldKind (name field got want : Text)
  | within (place : Text) (fault : TreeFault)
deriving DecidableEq, Repr

/-- The fault in words. -/
def TreeFault.message : TreeFault → Text
  | .missingNode => "missing required node"
  | .missingLocation => "missing required location"
  | .unknownType byte => "unknown node type " ++ Text.ofNat byte.toNat
  | .fieldCount name got want =>
    name ++ ": " ++ Text.ofNat got ++ " fields, schema has " ++ Text.ofNat want
  | .fieldKind name field got want => name ++ "." ++ field ++ ": got " ++ got ++ ", want " ++ want
  | .within place fault => place ++ ": " ++ fault.message

/-- Writers of parts of a tree. The state is the pool of constants. -/
abbrev TreeWrite := EStateM TreeFault (List Text) Text

namespace TreeWrite

/-- Refuses the tree. -/
def refuse (fault : TreeFault) : TreeWrite := throw fault

/-- Names the place of a fault. -/
def within (place : Text) (w : TreeWrite) : TreeWrite := fun pool =>
  match w pool with
  | .ok t pool' => .ok t pool'
  | .error fault pool' => .error (.within place fault) pool'

/-- The number of a constant, which joins the pool if it is new. -/
def constant (name : Text) : TreeWrite := fun pool =>
  match pool.idxOf? name with
  | some i => .ok (Write.u32 (UInt32.ofNat (i + 1))) pool
  | none => .ok (Write.u32 (UInt32.ofNat (pool.length + 1))) (pool ++ [name])

/-- Writes constants. -/
def constants : List Text → TreeWrite
  | [] => pure []
  | name :: rest => do
    let head ← constant name
    let tail ← constants rest
    pure (head ++ tail)

/-- The bytes of a location. -/
def location (l : Location) : Text := Write.u32 l.start ++ Write.u32 l.length

end TreeWrite

mutual

/-- Writes a record, or the mark for none where that is allowed. -/
def Record.write (r : Record) (optional : Bool) : TreeWrite :=
  match r with
  | .absent => if optional then pure [0] else .refuse .missingNode
  | .mk type id loc flags fields =>
    match type.schema? with
    | none => .refuse (.unknownType type.byte)
    | some schema =>
      if fields.length != schema.fields.length then
        .refuse (.fieldCount schema.name fields.length schema.fields.length)
      else do
        let rest ← Value.writeAll schema.name schema.fields fields
        pure (type.byte :: (Write.u32 id ++ TreeWrite.location loc ++ Write.u32 flags ++ rest))

/-- Writes the entries of a list of records, counting from `index`. -/
def Record.writeAll (rs : List Record) (index : Nat) : TreeWrite :=
  match rs with
  | [] => pure []
  | r :: rest => do
    let head ← TreeWrite.within ("[" ++ Text.ofNat index ++ "]") (r.write false)
    let tail ← Record.writeAll rest (index + 1)
    pure (head ++ tail)

/-- Writes a value. -/
def Value.write (v : Value) : TreeWrite :=
  match v with
  | .node r => r.write false
  | .optNode r => r.write true
  | .nodes rs => do
    let entries ← Record.writeAll rs 0
    pure (Write.u32 (UInt32.ofNat rs.length) ++ entries)
  | .const name => .constant name
  | .consts names => do
    let entries ← TreeWrite.constants names
    pure (Write.u32 (UInt32.ofNat names.length) ++ entries)
  | .loc (some l) => pure (TreeWrite.location l)
  | .loc none => .refuse .missingLocation
  | .optLoc (some l) => pure (1 :: TreeWrite.location l)
  | .optLoc none => pure [0]
  | .string t => pure (Write.name t)
  | .integer negative magnitude =>
    pure ((if negative then 1 else 0) :: Write.numeral magnitude.toNat)
  | .double x => pure (Write.f64le x)
  | .uint n => pure (Write.u32 n)
  | .other _ => .refuse .missingNode

/-- Writes the values of the fields of a schema, each of which has to be of the field's encoding. -/
def Value.writeAll (name : Text) (specs : List FieldSpec) (vs : List Value) : TreeWrite :=
  match vs with
  | [] => pure []
  | v :: rest =>
    match specs with
    | [] => pure []
    | spec :: more =>
      if v.kind? != some spec.kind then
        .refuse (.fieldKind name spec.name v.kindWord spec.kind.word)
      else do
        let head ← TreeWrite.within (name ++ "." ++ spec.name) v.write
        let tail ← Value.writeAll name more rest
        pure (head ++ tail)

end

namespace Document

/-- A count and the entries. -/
def listText {α : Type} (entry : α → Text) (xs : List α) : Text :=
  Write.u32 (UInt32.ofNat xs.length) ++ xs.flatMap entry

/-- The bytes of a comment. -/
def commentText (c : Comment) : Text := c.kind :: TreeWrite.location c.loc

/-- The bytes of a notice. -/
def noticeText (n : Notice) : Text :=
  Write.name n.message ++ TreeWrite.location n.loc ++ [n.level]

/-- The version to write: the current one unless another is given. -/
def givenVersion (doc : Document) : Version :=
  if doc.version = .zero then .current else doc.version

/-- The encoding to write: UTF-8 unless another is given. -/
def givenEncoding (doc : Document) : Text := if doc.encoding.isEmpty then "UTF-8" else doc.encoding

/-- What precedes the records. -/
def header (doc : Document) : Text :=
  let v := doc.givenVersion
  magic ++ [v.major, v.minor, v.patch, 0] ++ Write.name doc.givenEncoding
    ++ Write.signedNumeral doc.startLine.toInt
    ++ listText commentText doc.comments ++ listText noticeText doc.errors
    ++ listText noticeText doc.warnings

/-- The whole document around the written records and their pool. -/
def assemble (doc : Document) (records : Text) (pool : List Text) : Text :=
  let header := doc.header
  let rest := Write.u32 (UInt32.ofNat pool.length) ++ records
  header ++ Write.u32le (UInt32.ofNat (header.length + 4 + rest.length)) ++ rest ++ pool.flatMap Write.name

/-- Writes a document. -/
def write (doc : Document) : Except TreeFault Text :=
  match doc.root.write false [] with
  | .ok records pool => .ok (doc.assemble records pool)
  | .error fault _ => .error fault

/-- The bytes of a document, or the fault to report. -/
def encode (doc : Document) : Except Fault Text :=
  if doc.root.isAbsent then .error (.invalidInput .decode "document has no root node")
  else match doc.write with
    | .ok bytes => .ok bytes
    | .error fault =>
      .error (.wrap .decode .invalidData "encode serialized tree" (.plain fault.message))

/-- The bytes of a document where there may be none, which has no root either. -/
def encodeOption : Option Document → Except Fault Text
  | none => .error (.invalidInput .decode "document has no root node")
  | some doc => doc.encode

end Document

end Transpiler.Wire
