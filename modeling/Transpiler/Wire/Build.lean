import Transpiler.Wire.Record

/-!
# Making records

One function for each construct of the language, giving a record that obeys its schema. Locations are
empty until `place` sets one.
-/

namespace Transpiler.Wire.Build

/-- A record of a type without a place. -/
def ofFields (type : RecordType) (fields : List Value) : Record := .mk type 0 .zero 0 fields

/-- Gives a record its place. -/
def place (r : Record) (start length : UInt32) : Record :=
  match r with
  | .absent => .absent
  | .mk type id _ flags fields => .mk type id ⟨start, length⟩ flags fields

/-- An empty location where one is required. -/
def noLoc : Value := .loc (some .zero)

/-- No location where one is optional. -/
def optLoc : Value := .optLoc none

/-- A list of statements. -/
def statements (body : List Record) : Record := ofFields .statements [.nodes body]

/-- A body, left out when it has no statements. -/
def optStatements (body : List Record) : Value :=
  .optNode (if body.isEmpty then .absent else statements body)

/-- A program. -/
def program (body : List Record) : Record :=
  ofFields .program [.consts [], .node (statements body)]

/-- A write to a name that is not local. -/
def write (type : RecordType) (name : Text) (value : Record) : Record :=
  ofFields type [.const name, noLoc, .node value, noLoc]

/-- Writes a local. -/
def localWrite (name : Text) (value : Record) : Record :=
  ofFields .localWrite [.const name, .uint 0, noLoc, .node value, noLoc]

/-- A write to a local variable through an operator, named without its equals sign. -/
def localOperatorWrite (name operator : Text) (value : Record) : Record :=
  ofFields .localOperatorWrite [noLoc, noLoc, .node value, .const name, .const operator, .uint 0]

/-- Writes a field. -/
def instanceWrite (name : Text) (value : Record) : Record := write .instanceWrite name value
/-- Writes a global. -/
def globalWrite (name : Text) (value : Record) : Record := write .globalWrite name value
/-- Writes a constant. -/
def constantWrite (name : Text) (value : Record) : Record := write .constantWrite name value

/-- Reads a local. -/
def localRead (name : Text) : Record := ofFields .localRead [.const name, .uint 0]

/-- Reads a field. -/
def instanceRead (name : Text) : Record := ofFields .instanceRead [.const name]
/-- Reads a global. -/
def globalRead (name : Text) : Record := ofFields .globalRead [.const name]
/-- Reads a constant. -/
def constantRead (name : Text) : Record := ofFields .constantRead [.const name]

/-- The arguments of a call. -/
def arguments (values : List Record) : Record := ofFields .arguments [.nodes values]

/-- A call; without arguments there is no record for them. -/
def call (receiver : Record) (name : Text) (args : List Record) (block : Record) : Record :=
  ofFields .call
    [.optNode receiver, optLoc, .const name, optLoc, optLoc,
      .optNode (if args.isEmpty then .absent else arguments args), optLoc, .optNode block]

/-- A string. -/
def string (value : Text) : Record := ofFields .string [optLoc, noLoc, optLoc, .string value]
/-- A symbol. -/
def symbol (value : Text) : Record := ofFields .symbol [optLoc, optLoc, optLoc, .string value]
/-- An integer. -/
def integer (value : Int64) : Record := ofFields .integer [.ofInt64 value]
/-- A float. -/
def float (value : Binary64) : Record := ofFields .float [.double value]
/-- The value `true`. -/
def true_ : Record := ofFields .true_ []
/-- The value `false`. -/
def false_ : Record := ofFields .false_ []
/-- The value `nil`. -/
def nil : Record := ofFields .nil []
/-- The value `self`. -/
def self : Record := ofFields .self []

/-- A conjunction. -/
def and (left right : Record) : Record := ofFields .and [.node left, .node right, noLoc]

/-- A disjunction. -/
def or (left right : Record) : Record := ofFields .or [.node left, .node right, noLoc]

/-- An array. -/
def array (elements : List Record) : Record := ofFields .array [.nodes elements, optLoc, optLoc]
/-- A hash. -/
def hash (pairs : List Record) : Record := ofFields .hash [noLoc, .nodes pairs, noLoc]
/-- Keyword arguments. -/
def keywordHash (pairs : List Record) : Record := ofFields .keywordHash [.nodes pairs]

/-- A hash pair. -/
def assoc (key value : Record) : Record := ofFields .assoc [.node key, .node value, optLoc]

/-- A group in parentheses. -/
def parentheses (body : List Record) : Record :=
  ofFields .parentheses [optStatements body, noLoc, noLoc]

/-- A conditional; `subsequent` is an else clause, another conditional or absent. -/
def cond (predicate : Record) (body : List Record) (subsequent : Record) : Record :=
  ofFields .cond [optLoc, .node predicate, optLoc, optStatements body, .optNode subsequent, optLoc]

/-- A conditional whose body runs when the predicate does not hold. -/
def condNot (predicate : Record) (body : List Record) (otherwise : Record) : Record :=
  ofFields .unless [noLoc, .node predicate, optLoc, optStatements body, .optNode otherwise, optLoc]

/-- An `else` branch. -/
def otherwise (body : List Record) : Record :=
  ofFields .otherwise [noLoc, optStatements body, optLoc]

/-- A loop of a type. -/
def loop (type : RecordType) (predicate : Record) (body : List Record) : Record :=
  ofFields type [noLoc, optLoc, optLoc, .node predicate, optStatements body]

/-- A `while` loop. -/
def whileLoop (predicate : Record) (body : List Record) : Record := loop .while predicate body
/-- An `until` loop. -/
def untilLoop (predicate : Record) (body : List Record) : Record := loop .until predicate body

/-- Required parameters; without names there is no record for them. -/
def parameters (names : List Text) : Record :=
  if names.isEmpty then .absent
  else ofFields .parameters
    [.nodes (names.map fun n => ofFields .requiredParameter [.const n]), .nodes [],
      .optNode .absent, .nodes [], .nodes [], .optNode .absent, .optNode .absent]

/-- A method. -/
def method (name : Text) (params : List Text) (body : List Record) : Record :=
  ofFields .method
    [.const name, noLoc, .optNode .absent, .optNode (parameters params), optStatements body,
      .consts params, noLoc, optLoc, optLoc, optLoc, optLoc, optLoc]

/-- The parameters of a block; without names there is no record for them. -/
def blockParameters (names : List Text) : Record :=
  if names.isEmpty then .absent
  else ofFields .blockParameters [.optNode (parameters names), .nodes [], optLoc, optLoc]

/-- A block. -/
def block (params : List Text) (body : List Record) : Record :=
  ofFields .block [.consts params, .optNode (blockParameters params), optStatements body, noLoc, noLoc]

/-- A return, with or without a value. -/
def ret (value : Record) : Record :=
  ofFields .ret [noLoc, .optNode (if value.isAbsent then .absent else arguments [value])]

/-- A string with parts. -/
def interpolatedString (parts : List Record) : Record :=
  ofFields .interpolatedString [optLoc, .nodes parts, optLoc]

/-- A part that is code. -/
def embedded (body : List Record) : Record :=
  ofFields .embeddedStatements [noLoc, optStatements body, noLoc]

end Transpiler.Wire.Build
