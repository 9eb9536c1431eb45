import Transpiler.Wire.Reader
import Transpiler.Parsed

/-!
# From records to nodes

What a record means depends on the place it stands in: a value, a body, an else clause, a block. The
meaning as a value is worked out bottom-up, so that every record of the annotated tree (`Lowered`) carries
it; the other meanings look only at the record itself and the annotations below it. A record that the
language of nodes has no word for becomes an unknown node with the text it covers.
-/

namespace Transpiler.Wire

mutual

/-- A record with its meaning as a value. -/
inductive Lowered where
  | absent
  | mk (type : RecordType) (span : Span) (unknown node : Node) (parts : List (Text × Part))

/-- A field of a record, its records with their meanings. -/
inductive Part where
  | one (r : Lowered)
  | many (rs : List Lowered)
  | word (t : Text)
  | integer (i : Option Int64)
  | double (x : Binary64)
  | other

end

/-- The parts of a record by field name. -/
abbrev Parts := List (Text × Part)

namespace Parts

/-- The part in a field. -/
def get (parts : Parts) (field : Text) : Part := (parts.lookup field).getD .other

/-- The record in a field. -/
def one (parts : Parts) (field : Text) : Lowered :=
  match get parts field with
  | .one r => r
  | _ => .absent

/-- The records in a field. -/
def many (parts : Parts) (field : Text) : List Lowered :=
  match get parts field with
  | .many rs => rs
  | _ => []

/-- The word in a field. -/
def word (parts : Parts) (field : Text) : Text :=
  match get parts field with
  | .word t => t
  | _ => []

end Parts

namespace Lowered

/-- The record's parts. -/
def parts : Lowered → Parts
  | .absent => []
  | .mk _ _ _ _ parts => parts

/-- The record's place. -/
def span : Lowered → Span
  | .absent => .none
  | .mk _ span _ _ _ => span

/-- Whether it has this type. -/
def isType (type : RecordType) : Lowered → Bool
  | .absent => false
  | .mk t _ _ _ _ => t == type

/-- The record's node. -/
def node : Lowered → Node
  | .absent => .absent
  | .mk _ _ _ node _ => node

/-- A record as something the language has no word for. -/
def unknown : Lowered → Node
  | .absent => .absent
  | .mk _ _ unknown _ _ => unknown

/-- A record as a body: the statements of a list, or the record alone. -/
def body : Lowered → List Node
  | .absent => []
  | .mk .statements _ _ _ parts => (Parts.many parts "body").map node
  | .mk _ _ _ node _ => [node]

/-- The nodes of a branch. -/
def branch : Lowered → List Node
  | .absent => []
  | .mk .otherwise _ _ _ parts => (Parts.one parts "statements").body
  | .mk .cond _ _ node _ => [node]
  | .mk _ _ unknown _ _ => [unknown]

/-- The names of the required and optional parameters; nameless ones are left out. -/
def parameters : Lowered → List Text
  | .mk .parameters _ _ _ parts =>
    let groups := Parts.many parts "requireds" ++ Parts.many parts "optionals" ++ Parts.many parts "posts"
    (groups.map fun p => Parts.word p.parts "name").filter fun name => !name.isEmpty
  | _ => []

/-- The arguments of a call. -/
def arguments (r : Lowered) : List Node := (Parts.many r.parts "arguments").map node

/-- A record as an entry of a hash. One that is no pair keeps its slot. -/
def pair : Lowered → Node × Node
  | .mk .assoc _ _ _ parts => ((Parts.one parts "key").node, (Parts.one parts "value").node)
  | r => (r.unknown, .nil .none)

/-- The node of a block. -/
def block (r : Lowered) : Node :=
  let params := Parts.one r.parts "parameters"
  let names := if params.isType .blockParameters then (Parts.one params.parts "parameters").parameters
    else []
  .block r.span names (Parts.one r.parts "body").body

end Lowered

namespace Lowering

/-- The span of a location. -/
def span (l : Location) : Span := ⟨l.start.toNat, l.stop⟩

/-- The text at a location; nothing if it reaches past the end of the source. -/
def text (source : Text) (l : Location) : Text :=
  if l.stop > source.length then [] else (source.drop l.start.toNat).take l.length.toNat

/-- Joins two texts. -/
def concat (span : Span) (left right : Node) : Node := .call span left "+" [right] .absent

/-- Whether it is a string. -/
def isString : Node → Bool
  | .string .. => true
  | _ => false

/-- The parts of a string joined from the left, beginning with a string. -/
def interpolated (span : Span) : List Node → Node
  | [] => .string span []
  | first :: rest =>
    let start := if isString first then first else concat span (.string span []) first
    rest.foldl (concat span) start

/-- A call. A block argument that is no block is passed as a last argument. -/
def call (span : Span) (parts : Parts) : Node :=
  let receiver := (Parts.one parts "receiver").node
  let name := Parts.word parts "name"
  let args := (Parts.one parts "arguments").arguments
  match Parts.one parts "block" with
  | .absent => .call span receiver name args .absent
  | blk =>
    if blk.isType .block then .call span receiver name args blk.block
    else .call span receiver name (args ++ [blk.unknown]) .absent

/-- A return: several values make an array. -/
def ret (span : Span) (args : Lowered) : Node :=
  match args.arguments with
  | [] => .ret span .absent
  | [value] => .ret span value
  | values => .ret span (.array args.span values)

/-- What a record means as a value. -/
def meaning (span : Span) (unknown : Node) (parts : Parts) : RecordType → Node
  | .localWrite | .instanceWrite | .globalWrite | .constantWrite =>
    let name := Parts.word parts "name"
    .assignment span name (.ofName name) [] (Parts.one parts "value").node
  | .localOperatorWrite =>
    let name := Parts.word parts "name"
    .assignment span name (.ofName name) (Parts.word parts "binary_operator") (Parts.one parts "value").node
  | .localRead | .instanceRead | .globalRead | .constantRead =>
    let name := Parts.word parts "name"
    .var span name (.ofName name)
  | .call => call span parts
  | .and => .call span (Parts.one parts "left").node "&&" [(Parts.one parts "right").node] .absent
  | .or => .call span (Parts.one parts "left").node "||" [(Parts.one parts "right").node] .absent
  | .parentheses =>
    match (Parts.one parts "body").body with
    | [] => .nil span
    | [n] => n
    | _ => unknown
  | .string => .string span (Parts.word parts "unescaped")
  | .symbol => .symbol span (Parts.word parts "unescaped")
  | .interpolatedString => interpolated span ((Parts.many parts "parts").map (·.node))
  | .integer =>
    match Parts.get parts "value" with
    | .integer (some i) => .integer span i
    | _ => unknown
  | .float =>
    match Parts.get parts "value" with
    | .double x => .float span x
    | _ => unknown
  | .true_ => .boolean span true
  | .false_ => .boolean span false
  | .nil => .nil span
  | .self => .self span
  | .array => .array span ((Parts.many parts "elements").map (·.node))
  | .hash | .keywordHash => .hash span ((Parts.many parts "elements").map (·.pair))
  | .cond =>
    .cond span (Parts.one parts "predicate").node false (Parts.one parts "statements").body
      (Parts.one parts "subsequent").branch
  | .unless =>
    .cond span (Parts.one parts "predicate").node true (Parts.one parts "statements").body
      (Parts.one parts "else_clause").branch
  | .while =>
    .loop span (Parts.one parts "predicate").node false (Parts.one parts "statements").body
  | .until =>
    .loop span (Parts.one parts "predicate").node true (Parts.one parts "statements").body
  | .method =>
    match Parts.one parts "receiver" with
    | .absent =>
      .method span (Parts.word parts "name") (Parts.one parts "parameters").parameters (Parts.one parts "body").body
    | _ => unknown
  | .ret => ret span (Parts.one parts "arguments")
  | .embeddedStatements => ((Parts.one parts "statements").body.getLast?).getD (.string span [])
  | _ => unknown

end Lowering

mutual

/-- Annotates a record and all below it with their meanings. -/
def Record.lower (source : Text) (r : Record) : Lowered :=
  match r with
  | .absent => .absent
  | .mk type _ loc _ fields =>
    let span := Lowering.span loc
    let unknown : Node := .unknown span type.name (Lowering.text source loc)
    let names := match type.schema? with
      | some schema => schema.fields.map FieldSpec.name
      | none => []
    let parts := names.zip (Value.lowerAll source fields)
    .mk type span unknown (Lowering.meaning span unknown parts type) parts

/-- Lowers records. -/
def Record.lowerAll (source : Text) (rs : List Record) : List Lowered :=
  match rs with
  | [] => []
  | r :: rest => r.lower source :: Record.lowerAll source rest

/-- Lowers a value. -/
def Value.lower (source : Text) (v : Value) : Part :=
  match v with
  | .node r => .one (r.lower source)
  | .optNode r => .one (r.lower source)
  | .nodes rs => .many (Record.lowerAll source rs)
  | .const t => .word t
  | .string t => .word t
  | .integer negative magnitude => .integer (Value.int64? negative magnitude)
  | .double x => .double x
  | .consts _ | .loc _ | .optLoc _ | .uint _ | .other _ => .other

/-- Lowers values. -/
def Value.lowerAll (source : Text) (vs : List Value) : List Part :=
  match vs with
  | [] => []
  | v :: rest => v.lower source :: Value.lowerAll source rest

end

namespace Lowering

/-- The node of a comment. -/
def comment (source : Text) (c : Comment) : Node := .comment (span c.loc) (text source c.loc)

/-- The statements with the comments between them. A comment goes before the first statement that does
not start ahead of it. -/
def interleave (source : Text) : List Comment → List Node → List Node
  | [], body => body
  | c :: rest, body =>
    let ahead := fun n : Node => decide (n.span.start < c.loc.start.toNat)
    body.takeWhile ahead ++ comment source c :: interleave source rest (body.dropWhile ahead)

/-- The diagnostic of a notice. -/
def diagnostic (level : Level) (n : Notice) : Diagnostic := ⟨n.message, level, span n.loc⟩

end Lowering

/-- The parse of a document. -/
def Document.parsed (doc : Document) (source : Text) (keepComments : Bool) : Parsed :=
  let root := doc.root.lower source
  let body := (Parts.one root.parts "statements").body
  { root := some ⟨root.span,
      some (if keepComments then Lowering.interleave source doc.comments body else body)⟩
    source := source
    tier := .binary
    diagnostics := ⟨doc.errors.map (Lowering.diagnostic .error), doc.warnings.map (Lowering.diagnostic .warning)⟩
    success := true }

/-- Decodes and lowers. -/
def parse (keepComments : Bool) (data source : Text) : Except Fault Parsed :=
  (Document.decode data).map fun doc => doc.parsed source keepComments

end Transpiler.Wire
