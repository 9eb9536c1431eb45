import Transpiler.Text.Basic

/-!
# Record types and their schemas

A serialized tree is made of records. The type of a record fixes the names, order and encodings of its
fields; there are forty-two types, numbered from one.
-/

namespace Transpiler.Wire

/-- How a field is encoded. -/
inductive FieldKind where
  | node
  | optNode
  | nodes
  | const
  | consts
  | loc
  | optLoc
  | string
  | integer
  | double
  | uint
deriving DecidableEq, Repr

/-- The kind's name. -/
def FieldKind.word : FieldKind → Text
  | .node => "node"
  | .optNode => "node?"
  | .nodes => "node[]"
  | .const => "constant"
  | .consts => "constant[]"
  | .loc => "location"
  | .optLoc => "location?"
  | .string => "string"
  | .integer => "integer"
  | .double => "double"
  | .uint => "uint32"

/-- The type of a record; a byte outside the known ones has no schema. -/
inductive RecordType where
  | arguments
  | array
  | assoc
  | block
  | blockParameters
  | call
  | constantRead
  | constantWrite
  | method
  | otherwise
  | false_
  | float
  | globalRead
  | globalWrite
  | hash
  | cond
  | instanceRead
  | instanceWrite
  | integer
  | keywordHash
  | localOperatorWrite
  | localRead
  | localWrite
  | nil
  | parameters
  | parentheses
  | program
  | requiredParameter
  | ret
  | self
  | statements
  | string
  | symbol
  | true_
  | unless
  | until
  | while
  | and
  | or
  | optionalParameter
  | interpolatedString
  | embeddedStatements
  | other (byte : UInt8)
deriving DecidableEq, Repr

/-- A name and an encoding. -/
structure FieldSpec where
  name : Text
  kind : FieldKind
deriving DecidableEq, Repr

/-- The shape of the records of one type. -/
structure Schema where
  name : Text
  fields : List FieldSpec
deriving DecidableEq, Repr

namespace RecordType

/-- The types in order of number. -/
def known : List RecordType :=
  [.arguments, .array, .assoc, .block, .blockParameters, .call, .constantRead, .constantWrite,
    .method, .otherwise, .false_, .float, .globalRead, .globalWrite, .hash, .cond, .instanceRead,
    .instanceWrite, .integer, .keywordHash, .localOperatorWrite, .localRead, .localWrite, .nil,
    .parameters, .parentheses, .program, .requiredParameter, .ret, .self, .statements, .string,
    .symbol, .true_, .unless, .until, .while, .and, .or, .optionalParameter, .interpolatedString,
    .embeddedStatements]

/-- The type's number. -/
def byte : RecordType → UInt8
  | .other b => b
  | t => (known.idxOf t + 1).toUInt8

/-- The type of a number. -/
def ofByte (b : UInt8) : RecordType :=
  match b.toNat with
  | 0 => .other 0
  | i + 1 => (known[i]?).getD (.other b)

/-- A field by name and kind. -/
def field (name : String) (kind : FieldKind) : FieldSpec := ⟨name, kind⟩

/-- The fields of a write. -/
def writeFields : List FieldSpec :=
  [field "name" .const, field "name_loc" .loc, field "value" .node, field "operator_loc" .loc]

/-- The fields of a loop. -/
def loopFields : List FieldSpec :=
  [field "keyword_loc" .loc, field "do_keyword_loc" .optLoc, field "closing_loc" .optLoc,
    field "predicate" .node, field "statements" .optNode]

/-- The shape of the records of a type; none for an unknown type. -/
def schema? : RecordType → Option Schema
  | .arguments => some ⟨"ArgumentsNode", [field "arguments" .nodes]⟩
  | .array => some ⟨"ArrayNode", [field "elements" .nodes, field "opening_loc" .optLoc, field "closing_loc" .optLoc]⟩
  | .assoc => some ⟨"AssocNode", [field "key" .node, field "value" .node, field "operator_loc" .optLoc]⟩
  | .block => some ⟨"BlockNode",
      [field "locals" .consts, field "parameters" .optNode, field "body" .optNode,
        field "opening_loc" .loc, field "closing_loc" .loc]⟩
  | .blockParameters => some ⟨"BlockParametersNode",
      [field "parameters" .optNode, field "locals" .nodes, field "opening_loc" .optLoc, field "closing_loc" .optLoc]⟩
  | .call => some ⟨"CallNode",
      [field "receiver" .optNode, field "call_operator_loc" .optLoc, field "name" .const,
        field "message_loc" .optLoc, field "opening_loc" .optLoc, field "arguments" .optNode,
        field "closing_loc" .optLoc, field "block" .optNode]⟩
  | .constantRead => some ⟨"ConstantReadNode", [field "name" .const]⟩
  | .constantWrite => some ⟨"ConstantWriteNode", writeFields⟩
  | .method => some ⟨"DefNode",
      [field "name" .const, field "name_loc" .loc, field "receiver" .optNode,
        field "parameters" .optNode, field "body" .optNode, field "locals" .consts,
        field "def_keyword_loc" .loc, field "operator_loc" .optLoc, field "lparen_loc" .optLoc,
        field "rparen_loc" .optLoc, field "equal_loc" .optLoc, field "end_keyword_loc" .optLoc]⟩
  | .otherwise => some ⟨"ElseNode",
      [field "else_keyword_loc" .loc, field "statements" .optNode, field "end_keyword_loc" .optLoc]⟩
  | .false_ => some ⟨"FalseNode", []⟩
  | .float => some ⟨"FloatNode", [field "value" .double]⟩
  | .globalRead => some ⟨"GlobalVariableReadNode", [field "name" .const]⟩
  | .globalWrite => some ⟨"GlobalVariableWriteNode", writeFields⟩
  | .hash => some ⟨"HashNode", [field "opening_loc" .loc, field "elements" .nodes, field "closing_loc" .loc]⟩
  | .cond => some ⟨"IfNode",
      [field "if_keyword_loc" .optLoc, field "predicate" .node, field "then_keyword_loc" .optLoc,
        field "statements" .optNode, field "subsequent" .optNode,
        field "end_keyword_loc" .optLoc]⟩
  | .instanceRead => some ⟨"InstanceVariableReadNode", [field "name" .const]⟩
  | .instanceWrite => some ⟨"InstanceVariableWriteNode", writeFields⟩
  | .integer => some ⟨"IntegerNode", [field "value" .integer]⟩
  | .keywordHash => some ⟨"KeywordHashNode", [field "elements" .nodes]⟩
  | .localOperatorWrite => some ⟨"LocalVariableOperatorWriteNode",
      [field "name_loc" .loc, field "binary_operator_loc" .loc, field "value" .node,
        field "name" .const, field "binary_operator" .const, field "depth" .uint]⟩
  | .localRead => some ⟨"LocalVariableReadNode", [field "name" .const, field "depth" .uint]⟩
  | .localWrite => some ⟨"LocalVariableWriteNode",
      [field "name" .const, field "depth" .uint, field "name_loc" .loc, field "value" .node, field "operator_loc" .loc]⟩
  | .nil => some ⟨"NilNode", []⟩
  | .parameters => some ⟨"ParametersNode",
      [field "requireds" .nodes, field "optionals" .nodes, field "rest" .optNode,
        field "posts" .nodes, field "keywords" .nodes, field "keyword_rest" .optNode,
        field "block" .optNode]⟩
  | .parentheses => some ⟨"ParenthesesNode",
      [field "body" .optNode, field "opening_loc" .loc, field "closing_loc" .loc]⟩
  | .program => some ⟨"ProgramNode", [field "locals" .consts, field "statements" .node]⟩
  | .requiredParameter => some ⟨"RequiredParameterNode", [field "name" .const]⟩
  | .ret => some ⟨"ReturnNode", [field "keyword_loc" .loc, field "arguments" .optNode]⟩
  | .self => some ⟨"SelfNode", []⟩
  | .statements => some ⟨"StatementsNode", [field "body" .nodes]⟩
  | .string => some ⟨"StringNode",
      [field "opening_loc" .optLoc, field "content_loc" .loc, field "closing_loc" .optLoc, field "unescaped" .string]⟩
  | .symbol => some ⟨"SymbolNode",
      [field "opening_loc" .optLoc, field "value_loc" .optLoc, field "closing_loc" .optLoc, field "unescaped" .string]⟩
  | .true_ => some ⟨"TrueNode", []⟩
  | .unless => some ⟨"UnlessNode",
      [field "keyword_loc" .loc, field "predicate" .node, field "then_keyword_loc" .optLoc,
        field "statements" .optNode, field "else_clause" .optNode,
        field "end_keyword_loc" .optLoc]⟩
  | .until => some ⟨"UntilNode", loopFields⟩
  | .while => some ⟨"WhileNode", loopFields⟩
  | .and => some ⟨"AndNode", [field "left" .node, field "right" .node, field "operator_loc" .loc]⟩
  | .or => some ⟨"OrNode", [field "left" .node, field "right" .node, field "operator_loc" .loc]⟩
  | .optionalParameter => some ⟨"OptionalParameterNode",
      [field "name" .const, field "name_loc" .loc, field "operator_loc" .loc, field "value" .node]⟩
  | .interpolatedString => some ⟨"InterpolatedStringNode",
      [field "opening_loc" .optLoc, field "parts" .nodes, field "closing_loc" .optLoc]⟩
  | .embeddedStatements => some ⟨"EmbeddedStatementsNode",
      [field "opening_loc" .loc, field "statements" .optNode, field "closing_loc" .loc]⟩
  | .other _ => none

/-- The name of a type, or a description of an unknown one. -/
def name (t : RecordType) : Text :=
  match t.schema? with
  | some s => s.name
  | none => "UnknownNode(" ++ Text.ofNat t.byte.toNat ++ ")"

end RecordType

end Transpiler.Wire
