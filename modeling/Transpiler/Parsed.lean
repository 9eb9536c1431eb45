import Transpiler.Syntax.Grammar

/-!
# Parse results

The outcome of parsing one source: a tree, the tier of the pipeline it came from, and messages. Without a parse of the
whole program the source can still be read line by line: each line that holds code gives one node. Blank lines, lines
that start with `#` and the lines from `=begin` to `=end` hold none. A line that cannot be read is kept as an
`unknown` node. Names assigned on one line are known as local variables on the next.
-/

namespace Transpiler

namespace Lines

/-- The tag of a line that could not be read. -/
def unparsedTag : Text := "Unparsed"

/-- The bytes of indentation that count toward a line's offset. -/
def indentation (line : Text) : Nat :=
  (line.takeWhile fun b => b == ' '.toUInt8 || b == '\t'.toUInt8).length

/-- Whether a line, trimmed, holds code. -/
def holdsCode (trimmed : Text) : Bool :=
  match trimmed with
  | [] => false
  | b :: _ => b != '#'

/-- The node of one line of code at `offset`, and the local variables known after it. -/
def node (locals : List Text) (offset : Nat) (text : Text) : Node × List Text :=
  match parseLine locals offset text with
  | (.ok n, locals) => (n, locals)
  | (.error _, locals) => (.unknown ⟨offset, offset + text.length⟩ unparsedTag text, locals)

/-- The nodes of the lines from `offset` on. `inDoc` says that they begin inside a documentation block. -/
def nodes (offset : Nat) (inDoc : Bool) (locals : List Text) : List Text → List Node
  | [] => []
  | line :: rest =>
    let next := offset + line.length + 1
    if inDoc then nodes next (!("=end" : Text).isPrefixOf line) locals rest
    else if ("=begin" : Text).isPrefixOf line then nodes next true locals rest
    else
      let trimmed := line.trimmed
      if holdsCode trimmed then
        let (n, locals) := node locals (offset + indentation line) trimmed
        n :: nodes next false locals rest
      else nodes next false locals rest

end Lines

/-- The nodes of a source. -/
def reconstruct (source : Text) : List Node := Lines.nodes 0 false [] source.lines

/-- The decoding tier that produced a tree, by its word. The set of tiers is open. -/
structure Tier where
  word : Text
deriving DecidableEq, Repr

namespace Tier

/-- A decoder supplied from outside. -/
def external : Tier := ⟨"external"⟩
/-- The serialized tree. -/
def binary : Tier := ⟨"binary"⟩
/-- The source read line by line. -/
def heuristic : Tier := ⟨"heuristic"⟩
/-- The source read line by line because there was no parser to ask. -/
def fallback : Tier := ⟨"fallback"⟩

end Tier

/-- The root of a tree. A body that was never set is told apart from an empty one. -/
structure Root where
  span : Span
  body : Option (List Node)

/-- What comes of a source. -/
structure Parsed where
  root : Option Root
  source : Text
  tier : Tier
  diagnostics : Diagnostics
  success : Bool

namespace Parsed

/-- The statements of the tree. -/
def body (p : Parsed) : List Node := (p.root.bind (·.body)).getD []

/-- The tree as a node. -/
def tree? (p : Parsed) : Option Node := p.root.map fun r => .program r.span (r.body.getD [])

/-- The source read line by line, which always gives a tree. -/
def ofLines (source : Text) : Parsed where
  root := some ⟨⟨0, source.length⟩, some (reconstruct source)⟩
  source := source
  tier := .heuristic
  diagnostics := .empty
  success := true

end Parsed

end Transpiler
