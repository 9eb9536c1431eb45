import Transpiler.Text.Rune
import Transpiler.Yaml.Scalar

/-!
# Reading documents

The part of the format that settings use: maps and lists in blocks, lists and maps in brackets, plain and
quoted scalars, comments. A document is a tree of scalars, lists and maps. Scalars keep their spelling: what
they mean depends on what is wanted. Every part knows the line it starts on, for messages. A document is read
line by line; the blanks a line starts with tell its level.
-/

namespace Transpiler.Yaml

/-- A part of a document with its line. -/
inductive Tree where
  | scalar (line : Nat) (quoted : Bool) (text : Text)
  | list (line : Nat) (items : List Tree)
  | map (line : Nat) (entries : List (Tree × Tree))
deriving Inhabited

namespace Tree

/-- The line a part starts on. -/
def line : Tree → Nat
  | .scalar l _ _ | .list l _ | .map l _ => l

/-- The spelling of a scalar; lists and maps have none. -/
def spelling : Tree → Text
  | .scalar _ _ t => t
  | _ => []

/-- What a scalar means. A quoted one is a text. -/
def meaning : Tree → Meaning
  | .scalar _ quoted t => if quoted then .text else .ofText t
  | _ => .text

/-- Whether a part means nothing. -/
def isNull : Tree → Bool
  | .scalar l quoted t => (scalar l quoted t).meaning == .null
  | _ => false

/-- The name of the type of a part. -/
def typeName (t : Tree) : Text :=
  match t with
  | .list _ _ => "!!seq"
  | .map _ _ => "!!map"
  | .scalar _ _ _ =>
    match t.meaning with
    | .null => "!!null"
    | .bool _ => "!!bool"
    | .int _ => "!!int"
    | .float _ => "!!float"
    | .moment => "!!timestamp"
    | .text => "!!str"

/-- The value of a key without one. -/
def absent (line : Nat) : Tree := .scalar line false []

end Tree

/-- Why a text is no document. -/
inductive Problem where
  /-- A tab where blanks tell the level. -/
  | tab
  /-- A second key where a value is expected. -/
  | keyInValue
  /-- A bracket without its partner. -/
  | unclosed
  /-- A line that belongs to no level. -/
  | misplaced
  /-- A scalar that cannot start as it does. -/
  | badStart
  /-- A quoted scalar that does not end. -/
  | openQuote
  /-- An escape nobody knows. -/
  | badEscape
deriving DecidableEq, Repr

/-- The problem in words. -/
def Problem.message : Problem → Text
  | .tab => "found character that cannot start any token"
  | .keyInValue => "mapping values are not allowed in this context"
  | .unclosed => "did not find expected node content"
  | .misplaced => "did not find expected key"
  | .badStart => "found character that cannot start any token"
  | .openQuote => "found unexpected end of stream"
  | .badEscape => "found unknown escape character"

/-- A problem and the line it is found on, counted from one. -/
structure Fault where
  line : Nat
  problem : Problem
deriving DecidableEq, Repr

/-- The wording of a fault. The first line is not named. -/
def Fault.message (f : Fault) : Text :=
  let place : Text := if f.line ≤ 1 then "" else "line " ++ Text.ofNat f.line ++ ": "
  "yaml: " ++ place ++ f.problem.message

/-- A line with something on it: its number, its level and what follows the blanks. -/
structure Line where
  number : Nat
  indent : Nat
  text : Text
deriving DecidableEq, Repr

/-- A result or a fault. -/
abbrev Reads (α : Type) := Except Fault α

/-- A space or tab. -/
def isSpace (b : UInt8) : Bool := b == ' ' || b == '\t'

/-- A text without the blanks it ends with. -/
def dropTrailing (t : Text) : Text := (t.reverse.dropWhile isSpace).reverse

/-- Whether nothing but blanks and a comment is left of a line. -/
def isFinished (t : Text) : Bool :=
  match t.dropWhile isSpace with
  | [] => true
  | b :: _ => b == '#' && (t.head?.map isSpace).getD true

/-- A line with something on it. A tab among the blanks in front of it is refused. -/
def Line.of? (number : Nat) (t : Text) : Reads (Option Line) :=
  let blanks := t.takeWhile (· == ' '.toUInt8)
  let text := t.drop blanks.length
  match text.dropWhile isSpace with
  | [] => .ok none
  | b :: _ =>
    if b == '#' then .ok none
    else if text.head? == some '\t' then .error ⟨number, .tab⟩
    else .ok (some ⟨number, blanks.length, text⟩)

/-- Whether a line marks the start or the end of a document. -/
def isMarker (mark : Text) (t : Text) : Bool :=
  mark.isPrefixOf t && ((t.drop 3).head?.map isSpace).getD true

/-- The lines of the first document. -/
def linesFrom (number : Nat) (begun : Bool) : List Text → Reads (List Line)
  | [] => .ok []
  | t :: rest =>
    if isMarker "..." t then .ok []
    else if isMarker "---" t then
      if begun then .ok []
      else do
        let line ← Line.of? number (t.drop 3)
        let more ← linesFrom (number + 1) true rest
        return line.toList ++ more
    else do
      let line ← Line.of? number t
      let more ← linesFrom (number + 1) (begun || line.isSome) rest
      return line.toList ++ more

/-- The lines of a text, without the carriage returns some of them end with. -/
def rawLines (t : Text) : List Text :=
  (Text.lines t).map fun l => if l.getLast? == some '\r'.toUInt8 then l.dropLast else l

/-! ## Scalars -/

/-- What a letter after a backslash stands for. -/
def simpleEscape? (b : UInt8) : Option Nat :=
  match Char.ofNat b.toNat with
  | '0' => some 0x00
  | 'a' => some 0x07
  | 'b' => some 0x08
  | 't' => some 0x09
  | '\t' => some 0x09
  | 'n' => some 0x0A
  | 'v' => some 0x0B
  | 'f' => some 0x0C
  | 'r' => some 0x0D
  | 'e' => some 0x1B
  | ' ' => some 0x20
  | '"' => some 0x22
  | '/' => some 0x2F
  | '\\' => some 0x5C
  | 'N' => some 0x85
  | '_' => some 0xA0
  | 'L' => some 0x2028
  | 'P' => some 0x2029
  | _ => none

/-- How many hexadecimal digits follow a letter after a backslash. -/
def escapeWidth? (b : UInt8) : Option Nat :=
  match Char.ofNat b.toNat with
  | 'x' => some 2
  | 'u' => some 4
  | 'U' => some 8
  | _ => none

/-- The value of hex digits. -/
def hexValue? (t : Text) : Option Nat :=
  t.foldlM (fun n b => do
    let d ← Numeral.digit? b
    if d < 16 then some (n * 16 + d) else none) 0

/-- One escape: the character it stands for, and how much of the text after the backslash it takes. -/
def escapeAt? (t : Text) : Option (Text × Nat) :=
  match t with
  | [] => none
  | b :: rest =>
    match simpleEscape? b, escapeWidth? b with
    | some n, _ => some (String.utf8EncodeChar (Char.ofNat n), 1)
    | none, some width =>
      if rest.length < width then none
      else do
        let n ← hexValue? (rest.take width)
        let c ← Text.char? n
        return (String.utf8EncodeChar c, width + 1)
    | none, none => none

/-- The inside of a scalar in double quotes, and what follows it. `skip` bytes belong to an escape. -/
def doubleQuoted (line : Nat) : (skip : Nat) → Text → Reads (Text × Text)
  | _, [] => .error ⟨line, .openQuote⟩
  | skip + 1, _ :: rest => doubleQuoted line skip rest
  | 0, b :: rest =>
    if b == '"' then .ok ([], rest)
    else if b == '\\' then
      match escapeAt? rest with
      | none => .error ⟨line, .badEscape⟩
      | some (t, n) => do
        let (inside, after) ← doubleQuoted line n rest
        return (t ++ inside, after)
    else do
      let (inside, after) ← doubleQuoted line 0 rest
      return (b :: inside, after)

/-- The inside of a scalar in single quotes, and what follows it. -/
def singleQuoted (line : Nat) : Text → Reads (Text × Text)
  | [] => .error ⟨line, .openQuote⟩
  | b :: c :: rest =>
    if b == '\'' then
      if c == '\'' then do
        let (inside, after) ← singleQuoted line rest
        return (b :: inside, after)
      else .ok ([], c :: rest)
    else do
      let (inside, after) ← singleQuoted line (c :: rest)
      return (b :: inside, after)
  | [b] => if b == '\'' then .ok ([], []) else .error ⟨line, .openQuote⟩

/-- A quoted scalar at the start of a text, if one stands there. -/
def quotedAt (line : Nat) (t : Text) : Reads (Option (Text × Text)) :=
  match t with
  | [] => .ok none
  | b :: rest =>
    if b == '"' then some <$> doubleQuoted line 0 rest
    else if b == '\'' then some <$> singleQuoted line rest
    else .ok none

/-- The bytes no unquoted scalar starts with. -/
def reservedStarts : List UInt8 :=
  [',', '[', ']', '\x7b', '\x7d', '#', '&', '*', '!', '|', '>', '\'', '"', '%', '@', '\x60'].map Char.toUInt8

/-- Whether a plain scalar starts here. -/
def startsPlain (t : Text) : Bool :=
  match t with
  | [] => true
  | b :: rest =>
    !reservedStarts.contains b &&
      (!(b == '-' || b == '?' || b == ':')
        || !(rest.head?.map isSpace).getD true)

/-- Splits a text before the first byte where `stops` holds of the byte before, the byte and the byte
after. -/
def splitWhere (stops : Option UInt8 → UInt8 → Option UInt8 → Bool) :
    Option UInt8 → Text → Text × Text
  | _, [] => ([], [])
  | before, b :: rest =>
    if stops before b rest.head? then ([], b :: rest)
    else
      let (head, tail) := splitWhere stops (some b) rest
      (b :: head, tail)

/-- A space, or the end. -/
def spaceOrNone (b : Option UInt8) : Bool := (b.map isSpace).getD true

/-- Whether a colon here ends a key, or a comment begins. -/
def endsKeyOrLine (before : Option UInt8) (b : UInt8) (next : Option UInt8) : Bool :=
  (b == ':' && spaceOrNone next) || (b == '#' && (before.map isSpace).getD false)

/-- What ends a scalar in brackets. -/
def bracketEnds : List UInt8 := [',', '[', ']', '\x7b', '\x7d'].map Char.toUInt8

/-- Whether an unquoted scalar in brackets ends here. -/
def endsInBrackets (before : Option UInt8) (b : UInt8) (next : Option UInt8) : Bool :=
  bracketEnds.contains b || (b == ':' && (spaceOrNone next || (next.map bracketEnds.contains).getD false))
    || (b == '#' && (before.map isSpace).getD false)

/-! ## Brackets -/

/-- What stands in brackets, and what follows. -/
structure Bracketed where
  tree : Tree
  rest : Text

/-- A key and its value in brackets: the value follows a colon, or there is none. -/
def pairAfter (node : Text → Reads Bracketed) (line : Nat) (key : Tree) (t : Text) :
    Reads (Option (Tree × Tree) × Text) :=
  match t.dropWhile isSpace with
  | b :: rest =>
    if b != ':' then .ok (none, b :: rest)
    else match rest.dropWhile isSpace with
      | c :: more =>
        if c == ',' || c == ']' || c == '\x7d' then
          .ok (some (key, .absent line), c :: more)
        else do
          let v ← node (c :: more)
          return (some (key, v.tree), v.rest.dropWhile isSpace)
      | [] => .error ⟨line, .unclosed⟩
  | [] => .error ⟨line, .unclosed⟩

/-- The rest of what stands in brackets, up to the closing one. -/
def members (node : Text → Reads Bracketed) (line : Nat) (close : UInt8) :
    Nat → Text → Reads (List (Tree × Option Tree) × Text)
  | 0, _ => .error ⟨line, .unclosed⟩
  | fuel + 1, t =>
    match t.dropWhile isSpace with
    | [] => .error ⟨line, .unclosed⟩
    | b :: rest =>
      if b == close then .ok ([], rest)
      else do
        let key ← node (b :: rest)
        let (pair, t) ← pairAfter node line key.tree key.rest
        let member := match pair with
          | some (k, v) => (k, some v)
          | none => (key.tree, none)
        match t with
        | c :: rest =>
          if c == close then return ([member], rest)
          else if c == ',' then
            let (more, t) ← members node line close fuel rest
            return (member :: more, t)
          else .error ⟨line, .unclosed⟩
        | [] => .error ⟨line, .unclosed⟩

/-- A member of a list in brackets; a pair is a map of its own. -/
def listMember (line : Nat) : Tree × Option Tree → Tree
  | (t, none) => t
  | (k, some v) => .map line [(k, v)]

/-- A member of a map in brackets; a key alone has no value. -/
def mapMember (line : Nat) : Tree × Option Tree → Tree × Tree
  | (k, v) => (k, v.getD (.absent line))

/-- Reads a list, a map or a scalar in brackets. -/
def bracketNode (line : Nat) : Nat → Text → Reads Bracketed
  | 0, _ => .error ⟨line, .unclosed⟩
  | fuel + 1, t => do
    match ← quotedAt line t with
    | some (text, rest) => return ⟨.scalar line true text, rest⟩
    | none =>
      match t with
      | [] => .error ⟨line, .unclosed⟩
      | b :: rest =>
        if b == '[' then
          let (ms, rest) ← members (bracketNode line fuel) line ']' fuel rest
          return ⟨.list line (ms.map (listMember line)), rest⟩
        else if b == '\x7b' then
          let (ms, rest) ← members (bracketNode line fuel) line '\x7d' fuel rest
          return ⟨.map line (ms.map (mapMember line)), rest⟩
        else if !startsPlain t then .error ⟨line, .unclosed⟩
        else
          let (text, rest) := splitWhere endsInBrackets none t
          return ⟨.scalar line false (dropTrailing text), rest⟩

/-- Reads brackets that may go on over several lines, set in by more than `indent`. -/
def bracketLines (number indent : Nat) : Text → List Line → Reads (Tree × List Line)
  | t, lines =>
    match bracketNode number (t.length + 1) t with
    | .ok b => if isFinished b.rest then .ok (b.tree, lines) else .error ⟨number, .misplaced⟩
    | .error fault =>
      match lines with
      | l :: rest =>
        if indent < l.indent then bracketLines number indent (t ++ " " ++ l.text) rest
        else .error fault
      | [] => .error fault
termination_by _ lines => lines.length

/-! ## Blocks -/

/-- Whether an item starts here. -/
def isItem (t : Text) : Bool := t.head? == some '-' && spaceOrNone (t.drop 1).head?

/-- The key a line starts with and what follows its colon, if it starts with one. -/
def keyOf? (l : Line) : Reads (Option (Tree × Text)) := do
  match ← quotedAt l.number l.text with
  | some (text, rest) =>
    match rest.dropWhile isSpace with
    | b :: after =>
      if b == ':' && spaceOrNone after.head? then
        return some (.scalar l.number true text, after)
      else return none
    | [] => return none
  | none =>
    if !startsPlain l.text then return none
    else
      let (text, rest) := splitWhere endsKeyOrLine none l.text
      match rest with
      | b :: after =>
        if b == ':' then return some (.scalar l.number false (dropTrailing text), after)
        else return none
      | [] => return none

/-- An unquoted scalar and the lines on which it goes on. -/
def plainLines (indent : Nat) : Text → List Line → Reads (Text × List Line)
  | text, [] => .ok (text, [])
  | text, l :: rest =>
    if l.indent ≤ indent then .ok (text, l :: rest)
    else
      let (more, tail) := splitWhere endsKeyOrLine none l.text
      match tail with
      | b :: _ =>
        if b == ':' then .error ⟨l.number, .keyInValue⟩
        else plainLines indent (text ++ " " ++ dropTrailing more) rest
      | [] => plainLines indent (text ++ " " ++ dropTrailing more) rest

/-- A value that starts on a line, in a part set in by `indent`. -/
def valueOn (indent number : Nat) (t : Text) (lines : List Line) : Reads (Tree × List Line) := do
  match ← quotedAt number t with
  | some (text, rest) =>
    if isFinished rest then return (.scalar number true text, lines)
    else .error ⟨number, .misplaced⟩
  | none =>
    if t.head? == some '[' || t.head? == some '\x7b' then
      bracketLines number indent t lines
    else if !startsPlain t then .error ⟨number, .badStart⟩
    else
      let (text, rest) := splitWhere endsKeyOrLine none t
      if rest.head? == some ':' then .error ⟨number, .keyInValue⟩
      else
        let (text, lines) ← plainLines indent (dropTrailing text) lines
        return (.scalar number false text, lines)

mutual

/-- Reads the part that starts on the first line and is set in by more than `outer`; `outer` is one more
than the level of the part around it. -/
def block : Nat → (outer : Nat) → List Line → Reads (Tree × List Line)
  | 0, _, _ => .error ⟨0, .misplaced⟩
  | _, _, [] => .ok (.absent 0, [])
  | fuel + 1, outer, l :: rest =>
    if l.indent < outer then .ok (.absent l.number, l :: rest)
    else if isItem l.text then do
      let (items, rest) ← listItems fuel l.indent (l :: rest)
      return (.list l.number items, rest)
    else do
      match ← keyOf? l with
      | some _ =>
        let (entries, rest) ← mapEntries fuel l.indent (l :: rest)
        return (.map l.number entries, rest)
      | none => valueOn (outer - 1) l.number l.text rest

/-- The items of a list set in by `indent`. -/
def listItems : Nat → (indent : Nat) → List Line → Reads (List Tree × List Line)
  | 0, _, _ => .error ⟨0, .misplaced⟩
  | _, _, [] => .ok ([], [])
  | fuel + 1, indent, l :: rest =>
    if l.indent < indent then .ok ([], l :: rest)
    else if l.indent ≠ indent then .error ⟨l.number, .misplaced⟩
    else if !isItem l.text then .ok ([], l :: rest)
    else do
      let after := l.text.drop 1
      let text := after.dropWhile isSpace
      let inner : Line := ⟨l.number, indent + 1 + (after.length - text.length), text⟩
      let (item, rest) ←
        block fuel (indent + 1) (if isFinished after then rest else inner :: rest)
      let (items, rest) ← listItems fuel indent rest
      return (item :: items, rest)

/-- The entries of a map set in by `indent`. A list below a key may be set in as the key is. -/
def mapEntries : Nat → (indent : Nat) → List Line → Reads (List (Tree × Tree) × List Line)
  | 0, _, _ => .error ⟨0, .misplaced⟩
  | _, _, [] => .ok ([], [])
  | fuel + 1, indent, l :: rest =>
    if l.indent < indent then .ok ([], l :: rest)
    else if l.indent ≠ indent then .error ⟨l.number, .misplaced⟩
    else do
      match ← keyOf? l with
      | none => .error ⟨l.number, .misplaced⟩
      | some (key, after) =>
        let (value, rest) ←
          if !isFinished after then valueOn indent l.number (after.dropWhile isSpace) rest
          else match rest with
            | next :: _ =>
              if next.indent = indent ∧ isItem next.text then do
                let (items, rest) ← listItems fuel indent rest
                pure (Tree.list next.number items, rest)
              else block fuel (indent + 1) rest
            | [] => pure (Tree.absent l.number, [])
        let (entries, rest) ← mapEntries fuel indent rest
        return ((key, value) :: entries, rest)

end

/-- The first document of a text; none if it has nothing in it. -/
def read (t : Text) : Reads (Option Tree) := do
  let lines ← linesFrom 1 false (rawLines t)
  if lines.isEmpty then return none
  let (tree, rest) ← block (t.length + 2) 0 lines
  match rest with
  | [] => return some tree
  | l :: _ => .error ⟨l.number, .misplaced⟩

end Transpiler.Yaml
