import Transpiler.Wire.Record
import Transpiler.Wire.Tape
import Transpiler.Fault.Reports

/-!
# Reading documents

A document is its header, the tree of records and, at the place the header names, the pool of constants
that the records refer to by number. Records say nothing about their length, so a record of unknown type
ends the reading. The depth of nesting that is left is the argument the recursion goes down on.
-/

namespace Transpiler.Wire

/-- Why a document cannot be read. -/
inductive DocumentFault where
  | read (fault : ReadFault)
  | within (place : Text) (fault : DocumentFault)
  | badMagic (found : Text)
  | version (v : Version)
  | poolTooLarge (count left : Nat)
  | countTooLarge (what : Text) (count left : Nat)
  | constantIndex (index size : Nat)
  | missingNode (pos : Nat)
  | unknownType (byte : UInt8) (pos : Nat)
  | tooDeep (pos : Nat)
deriving Repr

/-- The fault in words. -/
def DocumentFault.message : DocumentFault → Text
  | .read fault => fault.message
  | .within place fault => place ++ ": " ++ fault.message
  | .badMagic found => "bad magic " ++ Text.quoted found
  | .version v => "unsupported version " ++ v.text
  | .poolTooLarge count left =>
    "constant pool: " ++ Text.ofNat count ++ " entries in " ++ Text.ofNat left ++ " bytes"
  | .countTooLarge what count left =>
    what ++ " count " ++ Text.ofNat count ++ " exceeds remaining " ++ Text.ofNat left ++ " bytes"
  | .constantIndex index size =>
    "constant index " ++ Text.ofNat index ++ " outside pool of " ++ Text.ofNat size
  | .missingNode pos => "missing required node at " ++ Text.ofNat pos
  | .unknownType byte pos =>
    "unknown node type " ++ Text.ofNat byte.toNat ++ " at " ++ Text.ofNat pos
  | .tooDeep pos => "nesting exceeds " ++ Text.ofNat maxDepth ++ " at " ++ Text.ofNat pos

/-- Reads a part of a document. -/
abbrev DocRead (α : Type) := Read DocumentFault α

namespace DocRead

/-- Reads bytes of a document. -/
def raw {α : Type} (r : RawRead α) : DocRead α := Read.mapFault .read r

/-- A read whose failures name the place. -/
def within {α : Type} (place : Text) (r : DocRead α) : DocRead α := Read.mapFault (.within place) r

/-- Refuses the document. -/
def refuse {α : Type} (fault : DocumentFault) : DocRead α := throw fault

/-- `n` reads in a row, each given its index. -/
def many {α : Type} (r : Nat → DocRead α) : (n : Nat) → (index : Nat) → DocRead (List α)
  | 0, _ => pure []
  | n + 1, index => do
    let a ← r index
    let rest ← many r n (index + 1)
    pure (a :: rest)

/-- The length of a list. Every entry takes a byte at least, so more entries than bytes are refused. -/
def count (what : Text) : DocRead Nat := do
  let n ← within (what ++ " count") (raw Read.u32)
  let left ← Read.left
  if n.toNat > left then refuse (.countTooLarge what n.toNat left) else pure n.toNat

/-- Reads a location. -/
def location : DocRead Location := do
  let start ← raw Read.u32
  let length ← raw Read.u32
  pure ⟨start, length⟩

/-- Reads a comment. -/
def comment (index : Nat) : DocRead Comment := within ("comment " ++ Text.ofNat index) do
  let kind ← raw Read.byte
  let loc ← location
  pure ⟨kind, loc⟩

/-- Reads the comments. -/
def comments : DocRead (List Comment) := do
  let n ← count "comments"
  many comment n 0

/-- Reads a notice. -/
def notice (what : Text) (index : Nat) : DocRead Notice := within (what ++ " " ++ Text.ofNat index) do
  let message ← raw Read.name
  let loc ← location
  let level ← raw Read.byte
  pure ⟨message, loc, level⟩

/-- Reads the notices. -/
def notices (what : Text) : DocRead (List Notice) := do
  let n ← count what
  many (notice what) n 0

/-- Reads the constant pool. -/
def pool (data : Text) (place n : Nat) : DocRead (List Text) := do
  within "constant pool" (raw (Read.seek data place))
  let left ← Read.left
  if n > left then refuse (.poolTooLarge n left)
  else many (fun index => within ("constant " ++ Text.ofNat (index + 1)) (raw Read.name)) n 0

/-- A constant by its number in the pool; numbers start at one. -/
def constant (consts : Array Text) : DocRead Text := do
  let index ← raw Read.u32
  match index.toNat with
  | 0 => refuse (.constantIndex 0 consts.size)
  | i + 1 => match consts[i]? with
    | some t => pure t
    | none => refuse (.constantIndex (i + 1) consts.size)

/-- The value of a field, given how records below it are read. -/
def value (consts : Array Text) (child : (optional : Bool) → DocRead Record) :
    FieldKind → DocRead Value
  | .node => do pure (.node (← child false))
  | .optNode => do pure (.optNode (← child true))
  | .nodes => do
    let n ← count "nodes"
    let rs ← many (fun index => within ("[" ++ Text.ofNat index ++ "]") (child false)) n 0
    pure (.nodes rs)
  | .const => do pure (.const (← constant consts))
  | .consts => do
    let n ← count "constants"
    pure (.consts (← many (fun _ => constant consts) n 0))
  | .loc => do pure (.loc (some (← location)))
  | .optLoc => do
    let present ← raw Read.byte
    if present == 0 then pure (.optLoc none) else pure (.optLoc (some (← location)))
  | .string => do pure (.string (← raw Read.name))
  | .integer => do
    let sign ← raw Read.byte
    let magnitude ← raw Read.u64
    pure (.integer (sign != 0) magnitude)
  | .double => do pure (.double (← raw Read.f64le))
  | .uint => do pure (.uint (← raw Read.u32))

/-- The values of the fields of a schema, in order. -/
def values (consts : Array Text) (child : (optional : Bool) → DocRead Record) (name : Text) :
    List FieldSpec → DocRead (List Value)
  | [] => pure []
  | spec :: rest => do
    let v ← within (name ++ "." ++ spec.name) (value consts child spec.kind)
    let vs ← values consts child name rest
    pure (v :: vs)

/-- What follows the type byte of a record. -/
def body (consts : Array Text) (child : (optional : Bool) → DocRead Record) (type : RecordType)
    (schema : Schema) : DocRead Record := do
  let id ← within (schema.name ++ " id") (raw Read.u32)
  let loc ← within (schema.name ++ " location") location
  let flags ← within (schema.name ++ " flags") (raw Read.u32)
  let fields ← values consts child schema.name schema.fields
  pure (.mk type id loc flags fields)

/-- A record whose type byte leads to its schema, the rest being read by `inside`, which also learns where
the record starts. A zero byte stands for no record. -/
def typed (optional : Bool) (inside : Nat → RecordType → Schema → DocRead Record) : DocRead Record := do
  let pos ← Read.position
  let b ← raw Read.byte
  if b == 0 then
    if optional then pure .absent else refuse (.missingNode pos)
  else
    let type := RecordType.ofByte b
    match type.schema? with
    | none => refuse (.unknownType b pos)
    | some schema => inside pos type schema

/-- A record, with so many levels of nesting left. -/
def record (consts : Array Text) : (depth : Nat) → (optional : Bool) → DocRead Record
  | 0, optional => typed optional fun pos _ _ => refuse (.tooDeep pos)
  | depth + 1, optional => typed optional fun _ => body consts (record consts depth)

/-- Reads the magic word. -/
def opening : DocRead Unit := do
  let found ← within "header" (raw (Read.bytes magic.length))
  if found == magic then pure () else refuse (.badMagic found)

/-- The version; only the major number decides. -/
def version : DocRead Version := do
  let numbers ← within "version" (raw (Read.bytes 3))
  match numbers with
  | [major, minor, patch] =>
    if major == Version.current.major then pure ⟨major, minor, patch⟩
    else refuse (.version ⟨major, minor, patch⟩)
  | _ => refuse (.version .zero)

/-- All that stands in front of the records. -/
structure Header where
  version : Version
  encoding : Text
  startLine : Int64
  comments : List Comment
  errors : List Notice
  warnings : List Notice
  poolPlace : UInt32
  poolCount : UInt32

/-- Reads what precedes the records. -/
def header : DocRead Header := do
  opening
  let version ← version
  let _ ← within "flags" (raw Read.byte)
  let encoding ← within "encoding" (raw Read.name)
  let startLine ← within "start line" (raw Read.s64)
  let comments ← comments
  let errors ← notices "errors"
  let warnings ← notices "warnings"
  let poolPlace ← within "constant pool offset" (raw Read.u32le)
  let poolCount ← within "constant pool count" (raw Read.u32)
  pure ⟨version, encoding, startLine, comments, errors, warnings, poolPlace, poolCount⟩

/-- A whole document, `data` being all of it. The pool is read before the records that refer to it. -/
def document (data : Text) : DocRead Document := do
  let header ← header
  let nodes ← Read.position
  let consts ← pool data header.poolPlace.toNat header.poolCount.toNat
  raw (Read.seek data nodes)
  let root ← record consts.toArray maxDepth false
  pure ⟨header.version, header.encoding, header.startLine, header.comments, header.errors, header.warnings, root⟩

end DocRead

/-- Reads a document. -/
def Document.read (data : Text) : Except DocumentFault Document :=
  match DocRead.document data (Tape.ofText data) with
  | .ok doc _ => .ok doc
  | .error fault _ => .error fault

/-- The document that some bytes serialize, or the fault to report. -/
def Document.decode (data : Text) : Except Fault Document :=
  match Document.read data with
  | .ok doc => .ok doc
  | .error fault =>
    .error (.wrap .decode .invalidData "decode serialized tree" (.plain fault.message))

end Transpiler.Wire
