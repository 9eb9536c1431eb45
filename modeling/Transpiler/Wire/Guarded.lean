import Transpiler.Wire.Lowering

/-!
# Lowering with every step guarded

`Lowering` says what every document means; here is lowering as it is run. Records are reached through handles, which
may lead to nothing, and fields are asked for by name, whatever the type of the record. The run breaks down where a
handle that leads to nothing is asked for anything, where the value of a field is needed that the record does not
have, and where a piece of the source is cut out that does not lie in it.
-/

namespace Transpiler.Wire

/-- Why lowering broke down. -/
inductive Breakdown where
  /-- Something was asked of a record or a field that is not there. -/
  | nothing
  /-- A piece of the source does not lie in it. -/
  | slice (start stop length : Nat)
deriving DecidableEq, Repr

/-- The breakdown in words. -/
def Breakdown.message : Breakdown → Text
  | .nothing => "runtime error: invalid memory address or nil pointer dereference"
  | .slice start stop length =>
    if stop > length then
      "runtime error: slice bounds out of range [:" ++ Text.ofNat stop ++ "] with length " ++ Text.ofNat length
    else "runtime error: slice bounds out of range [" ++ Text.ofNat start ++ ":" ++ Text.ofNat stop ++ "]"

/-- A result or a breakdown. -/
abbrev Attempt := Except Breakdown

mutual

/-- What leads to a record or to nothing, with what comes of working the record out as an unknown construct and
as a value. -/
inductive Handle where
  | absent
  | mk (type : RecordType) (span : Span) (unknown node : Attempt Node) (slots : List (Text × Slot))

/-- A field of a record behind a handle. -/
inductive Slot where
  | one (r : Handle)
  | many (rs : List Handle)
  | const (t : Text)
  | string (t : Text)
  | integer (i : Option Int64)
  | double (x : Binary64)
  | other

end

/-- Slots by field. -/
abbrev Slots := List (Text × Slot)

namespace Slots

/-- The record in a field. A field that holds something else, or is not there, leads to nothing. -/
def one (slots : Slots) (field : Text) : Handle :=
  match slots.lookup field with
  | some (.one r) => r
  | _ => .absent

/-- The handles in a field. -/
def many (slots : Slots) (field : Text) : List Handle :=
  match slots.lookup field with
  | some (.many rs) => rs
  | _ => []

/-- The constant in a field. -/
def const (slots : Slots) (field : Text) : Text :=
  match slots.lookup field with
  | some (.const t) => t
  | _ => []

/-- The text in a field, which has to be there. -/
def string (slots : Slots) (field : Text) : Attempt Text :=
  match slots.lookup field with
  | none => throw .nothing
  | some (.string t) => pure t
  | some _ => pure []

/-- The integer in a field, which has to be there. -/
def integer (slots : Slots) (field : Text) : Attempt (Option Int64) :=
  match slots.lookup field with
  | none => throw .nothing
  | some (.integer i) => pure i
  | some _ => pure (some 0)

/-- The double in a field, which has to be there. -/
def double (slots : Slots) (field : Text) : Attempt Binary64 :=
  match slots.lookup field with
  | none => throw .nothing
  | some (.double x) => pure x
  | some _ => pure ⟨0⟩

end Slots

namespace Handle

/-- The record's slots. -/
def slots : Handle → Attempt Slots
  | .absent => throw .nothing
  | .mk _ _ _ _ slots => pure slots

/-- The record's place. -/
def span : Handle → Attempt Span
  | .absent => throw .nothing
  | .mk _ span _ _ _ => pure span

/-- Whether it has this type. -/
def isType (type : RecordType) : Handle → Attempt Bool
  | .absent => throw .nothing
  | .mk t _ _ _ _ => pure (t == type)

/-- The record's node. -/
def node : Handle → Attempt Node
  | .absent => throw .nothing
  | .mk _ _ _ node _ => node

/-- The record as something the language has no word for. -/
def unknown : Handle → Attempt Node
  | .absent => throw .nothing
  | .mk _ _ unknown _ _ => unknown

/-- The record as a value, if there is one. -/
def node? : Handle → Attempt Node
  | .absent => pure .absent
  | r => r.node

/-- The record as a body: the statements of a list, or the record alone. -/
def body : Handle → Attempt (List Node)
  | .absent => pure []
  | .mk .statements _ _ _ slots => (Slots.many slots "body").mapM node
  | r => do pure [← r.node]

/-- The nodes of a branch. -/
def branch : Handle → Attempt (List Node)
  | .absent => pure []
  | .mk .otherwise _ _ _ slots => (Slots.one slots "statements").body
  | .mk .cond _ _ node _ => do pure [← node]
  | r => do pure [← r.unknown]

/-- A parameter's name. -/
def parameter (r : Handle) : Attempt Text := do pure (Slots.const (← r.slots) "name")

/-- The names of the required and optional parameters; nameless ones are left out. -/
def parameters : Handle → Attempt (List Text)
  | .mk .parameters _ _ _ slots => do
    let groups := Slots.many slots "requireds" ++ Slots.many slots "optionals" ++ Slots.many slots "posts"
    let names ← groups.mapM parameter
    pure (names.filter fun name => !name.isEmpty)
  | _ => pure []

/-- The values of a record of arguments, if there is one. -/
def arguments : Handle → Attempt (List Node)
  | .absent => pure []
  | .mk _ _ _ _ slots => (Slots.many slots "arguments").mapM node

/-- The record as an entry of a hash. One that is no pair keeps its slot. -/
def pair (r : Handle) : Attempt (Node × Node) := do
  let slots ← r.slots
  if ← r.isType .assoc then
    pure (← (Slots.one slots "key").node, ← (Slots.one slots "value").node)
  else pure (← r.unknown, .nil .none)

/-- The names of the parameters of a block, from its field for them. -/
def blockParameters : Handle → Attempt (List Text)
  | .mk .blockParameters _ _ _ slots => (Slots.one slots "parameters").parameters
  | _ => pure []

/-- The node of a block. -/
def block (r : Handle) : Attempt Node := do
  let slots ← r.slots
  let body ← (Slots.one slots "body").body
  let names ← (Slots.one slots "parameters").blockParameters
  pure (.block (← r.span) names body)

end Handle

namespace Guarded

/-- A part of the source. -/
def slice (source : Text) (start stop : Nat) : Attempt Text :=
  if start ≤ stop ∧ stop ≤ source.length then pure ((source.drop start).take (stop - start))
  else throw (.slice start stop source.length)

/-- The text at a location; nothing if it reaches past the end of the source. The end is worked out in 64
bits. -/
def text (source : Text) (l : Location) : Attempt Text :=
  let stop := (l.start.toUInt64 + l.length.toUInt64).toNat
  if stop > source.length then pure [] else slice source l.start.toNat stop

/-- A call. A block argument that is no block is passed as a last argument. -/
def call (span : Span) (slots : Slots) : Attempt Node := do
  let name := Slots.const slots "name"
  let receiver ← (Slots.one slots "receiver").node?
  let args ← (Slots.one slots "arguments").arguments
  match Slots.one slots "block" with
  | .absent => pure (.call span receiver name args .absent)
  | blk =>
    if ← blk.isType .block then pure (.call span receiver name args (← blk.block))
    else pure (.call span receiver name (args ++ [← blk.unknown]) .absent)

/-- A return: several values make an array. -/
def ret (span : Span) (args : Handle) : Attempt Node := do
  match ← args.arguments with
  | [] => pure (.ret span .absent)
  | [value] => pure (.ret span value)
  | values => pure (.ret span (.array (← args.span) values))

/-- A conditional. -/
def cond (span : Span) (negated : Bool) (slots : Slots) (alternative : Text) : Attempt Node := do
  let condition ← (Slots.one slots "predicate").node
  let consequence ← (Slots.one slots "statements").body
  pure (.cond span condition negated consequence (← (Slots.one slots alternative).branch))

/-- A loop. -/
def loop (span : Span) (negated : Bool) (slots : Slots) : Attempt Node := do
  let condition ← (Slots.one slots "predicate").node
  pure (.loop span condition negated (← (Slots.one slots "statements").body))

/-- An assignment. -/
def assignment (span : Span) (operator : Text) (slots : Slots) : Attempt Node := do
  let name := Slots.const slots "name"
  pure (.assignment span name (.ofName name) operator (← (Slots.one slots "value").node))

/-- Two operands and the operator between them. -/
def joined (span : Span) (operator : Text) (slots : Slots) : Attempt Node := do
  let left ← (Slots.one slots "left").node
  pure (.call span left operator [← (Slots.one slots "right").node] .absent)

/-- The node of a record. -/
def meaning (span : Span) (unknown : Attempt Node) (slots : Slots) : RecordType → Attempt Node
  | .localWrite | .instanceWrite | .globalWrite | .constantWrite => assignment span [] slots
  | .localOperatorWrite => assignment span (Slots.const slots "binary_operator") slots
  | .localRead | .instanceRead | .globalRead | .constantRead =>
    let name := Slots.const slots "name"
    pure (.var span name (.ofName name))
  | .call => call span slots
  | .and => joined span "&&" slots
  | .or => joined span "||" slots
  | .parentheses => do
    match ← (Slots.one slots "body").body with
    | [] => pure (.nil span)
    | [n] => pure n
    | _ => unknown
  | .string => do pure (.string span (← Slots.string slots "unescaped"))
  | .symbol => do pure (.symbol span (← Slots.string slots "unescaped"))
  | .interpolatedString => do
    pure (Lowering.interpolated span (← (Slots.many slots "parts").mapM Handle.node))
  | .integer => do
    match ← Slots.integer slots "value" with
    | some i => pure (.integer span i)
    | none => unknown
  | .float => do pure (.float span (← Slots.double slots "value"))
  | .true_ => pure (.boolean span true)
  | .false_ => pure (.boolean span false)
  | .nil => pure (.nil span)
  | .self => pure (.self span)
  | .array => do pure (.array span (← (Slots.many slots "elements").mapM Handle.node))
  | .hash | .keywordHash => do pure (.hash span (← (Slots.many slots "elements").mapM Handle.pair))
  | .cond => cond span false slots "subsequent"
  | .unless => cond span true slots "else_clause"
  | .while => loop span false slots
  | .until => loop span true slots
  | .method =>
    match Slots.one slots "receiver" with
    | .absent => do
      let params ← (Slots.one slots "parameters").parameters
      pure (.method span (Slots.const slots "name") params (← (Slots.one slots "body").body))
    | _ => unknown
  | .ret => ret span (Slots.one slots "arguments")
  | .embeddedStatements => do
    pure (((← (Slots.one slots "statements").body).getLast?).getD (.string span []))
  | _ => unknown

end Guarded

mutual

/-- The handle of a record. -/
def Record.handle (source : Text) (r : Record) : Handle :=
  match r with
  | .absent => .absent
  | .mk type _ loc _ fields =>
    let span := Lowering.span loc
    let unknown : Attempt Node := (Guarded.text source loc).map (.unknown span type.name ·)
    let names := match type.schema? with
      | some schema => schema.fields.map FieldSpec.name
      | none => []
    let slots := names.zip (Value.slots source fields)
    .mk type span unknown (Guarded.meaning span unknown slots type) slots

/-- The handles of records. -/
def Record.handles (source : Text) (rs : List Record) : List Handle :=
  match rs with
  | [] => []
  | r :: rest => r.handle source :: Record.handles source rest

/-- The slot of a value. -/
def Value.slot (source : Text) (v : Value) : Slot :=
  match v with
  | .node r => .one (r.handle source)
  | .optNode r => .one (r.handle source)
  | .nodes rs => .many (Record.handles source rs)
  | .const t => .const t
  | .string t => .string t
  | .integer negative magnitude => .integer (Value.int64? negative magnitude)
  | .double x => .double x
  | .consts _ | .loc _ | .optLoc _ | .uint _ | .other _ => .other

/-- The slots of values. -/
def Value.slots (source : Text) (vs : List Value) : List Slot :=
  match vs with
  | [] => []
  | v :: rest => v.slot source :: Value.slots source rest

end

namespace Guarded

/-- Where a node of a body starts; the node has to be there. -/
def startOf (n : Node) : Attempt Nat := if n.isAbsent then throw .nothing else pure n.span.start

/-- Cuts a body in two: the nodes that start ahead of a place, and the rest. -/
def cutAt (place : Nat) : List Node → Attempt (List Node × List Node)
  | [] => pure ([], [])
  | n :: rest => do
    if (← startOf n) < place then
      let (ahead, others) ← cutAt place rest
      pure (n :: ahead, others)
    else pure ([], n :: rest)

/-- The statements with the comments between them. A comment goes before the first statement that does not
start ahead of it. -/
def interleave (source : Text) : List Comment → List Node → Attempt (List Node)
  | [], body => pure body
  | c :: rest, body => do
    let (ahead, others) ← cutAt c.loc.start.toNat body
    let words ← text source c.loc
    pure (ahead ++ .comment (Lowering.span c.loc) words :: (← interleave source rest others))

end Guarded

/-- The parse result of a document, if lowering does not break down. -/
def Document.lowered (doc : Document) (source : Text) (keepComments : Bool) : Attempt Parsed := do
  let root := doc.root.handle source
  let span ← root.span
  let body ← (Slots.one (← root.slots) "statements").body
  let body ← if keepComments then Guarded.interleave source doc.comments body else pure body
  pure
    { root := some ⟨span, some body⟩
      source := source
      tier := .binary
      diagnostics := ⟨doc.errors.map (Lowering.diagnostic .error), doc.warnings.map (Lowering.diagnostic .warning)⟩
      success := true }

end Transpiler.Wire
