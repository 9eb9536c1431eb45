import Transpiler.Syntax.Node
import Transpiler.Yaml.Writer

/-!
# Outlines

The outline of a tree is its dump as plain data: for each node a map with its kind, its place and
its fields, in alphabetical order. Empty optional fields are left out.
-/

namespace Transpiler

namespace Span

/-- The span as data. -/
def outline (s : Span) : Data :=
  .map [("end_offset", .int s.stop), ("start_offset", .int s.start)]

end Span

namespace Node

/-- A single entry. -/
def entry (key : Text) (value : Data) : List (Text × Data) := [(key, value)]

/-- An entry that is left out unless `present`. -/
def optional (present : Bool) (key : Text) (value : Data) : List (Text × Data) :=
  if present then entry key value else []

/-- Parameters as data. -/
def outlineParams (params : List Text) : Data :=
  if params.isEmpty then .noList else .list (params.map .text)

mutual

/-- The node as data. -/
def outline (n : Node) : Data :=
  match n with
  | .absent => .nothing
  | .program s body =>
    .map [("body", .list (outlineAll body)), ("location", s.outline), ("type", .text "Program")]
  | .assignment s name scope operator value =>
    .map (entry "location" s.outline ++ entry "name" (.text name)
      ++ optional (!operator.isEmpty) "operator" (.text operator)
      ++ entry "scope" (.text scope.word) ++ entry "type" (.text "Assignment")
      ++ entry "value" (outline value))
  | .call s receiver name arguments blk =>
    .map (optional (!arguments.isEmpty) "arguments" (.list (outlineAll arguments))
      ++ optional (!blk.isAbsent) "block" (outline blk)
      ++ entry "location" s.outline ++ entry "name" (.text name)
      ++ optional (!receiver.isAbsent) "receiver" (outline receiver)
      ++ entry "type" (.text "Call"))
  | .block s params body =>
    .map [("body", .list (outlineAll body)), ("location", s.outline),
      ("params", outlineParams params), ("type", .text "Block")]
  | .var s name scope =>
    .map [("location", s.outline), ("name", .text name), ("scope", .text scope.word), ("type", .text "Variable")]
  | .self s => .map [("location", s.outline), ("type", .text "Self")]
  | .string s value =>
    .map [("location", s.outline), ("type", .text "StringLiteral"), ("value", .text value)]
  | .integer s value =>
    .map [("location", s.outline), ("type", .text "IntegerLiteral"), ("value", .int value.toInt)]
  | .float s value =>
    .map [("location", s.outline), ("type", .text "FloatLiteral"), ("value", .float value)]
  | .boolean s value =>
    .map [("location", s.outline), ("type", .text "BooleanLiteral"), ("value", .bool value)]
  | .nil s => .map [("location", s.outline), ("type", .text "NilLiteral")]
  | .symbol s value =>
    .map [("location", s.outline), ("type", .text "SymbolLiteral"), ("value", .text value)]
  | .array s elements =>
    .map [("elements", .list (outlineAll elements)), ("location", s.outline), ("type", .text "ArrayLiteral")]
  | .hash s pairs =>
    .map [("location", s.outline), ("pairs", .list (outlinePairs pairs)), ("type", .text "HashLiteral")]
  | .cond s condition negated consequence alternative =>
    .map (entry "condition" (outline condition)
      ++ optional (!alternative.isEmpty) "else" (.list (outlineAll alternative))
      ++ entry "location" s.outline ++ entry "negated" (.bool negated)
      ++ entry "then" (.list (outlineAll consequence)) ++ entry "type" (.text "If"))
  | .loop s condition negated body =>
    .map [("body", .list (outlineAll body)), ("condition", outline condition),
      ("location", s.outline), ("negated", .bool negated), ("type", .text "While")]
  | .method s name params body =>
    .map [("body", .list (outlineAll body)), ("location", s.outline), ("name", .text name),
      ("params", outlineParams params), ("type", .text "Def")]
  | .ret s value =>
    .map (entry "location" s.outline ++ entry "type" (.text "Return")
      ++ optional (!value.isAbsent) "value" (outline value))
  | .comment s text =>
    .map [("location", s.outline), ("text", .text text), ("type", .text "Comment")]
  | .unknown s tag text =>
    .map [("location", s.outline), ("text", .text text), ("type", .text tag)]

/-- Nodes as data. -/
def outlineAll (ns : List Node) : List Data :=
  match ns with
  | [] => []
  | n :: rest => outline n :: outlineAll rest

/-- Hash pairs as data. -/
def outlinePairs (ps : List (Node × Node)) : List Data :=
  match ps with
  | [] => []
  | (key, value) :: rest =>
    .map [("key", outline key), ("value", outline value)] :: outlinePairs rest

end

end Node

end Transpiler
