import Transpiler.Script.Name
import Transpiler.Script.Numeral
import Transpiler.Script.Tree

/-!
# Printing generated code

A tree of generated code is laid out in lines: one statement after the other, bodies one level deeper
than what encloses them. An array or object literal stays on one line unless one of its entries is a
comment or spans several lines; then each entry has a line of its own.
-/

namespace Transpiler.Script

/-- Opens a remark. -/
def commentMark : Text := "// unsupported node: "

/-- The remark on a node. -/
def commentText (tag : Text) : Text := commentMark ++ tag

/-- The blanks before a line. -/
def indentation (unit : Text) (depth : Nat) : Text := (List.replicate depth unit).flatten

/-- The lines of a statement at a level. Only the first line is indented here: later lines of a text
that spans several already are. -/
def emitted (unit : Text) (depth : Nat) (text : Text) : List Text :=
  match text.cut Text.newline with
  | (first, none) => [indentation unit depth ++ first]
  | (first, some rest) =>
    (indentation unit depth ++ first) :: if rest.isEmpty then [] else rest.lines

/-- The text of something to which a property access is attached: a minus sign in front would take in
the access too, so it goes in parentheses. -/
def receiverText (text : Text) : Text :=
  if ("-" : Text).isPrefixOf text then "(" ++ text ++ ")" else text

/-- Names set apart by commas. -/
def bindingList (names : List Text) : Text := Text.join ", " (names.map binding)

/-- An entry's text. -/
inductive EntryText where
  | code (text : Text)
  | comment (text : Text)

namespace EntryText

/-- The text of an entry, be it code or comment. -/
def text : EntryText → Text
  | .code t => t
  | .comment t => t

/-- Whether the entry is code. -/
def isCode : EntryText → Bool
  | .code _ => true
  | .comment _ => false

/-- Whether an entry cannot share a line with others. -/
def needsOwnLine (e : EntryText) : Bool := !e.isCode || e.text.contains Text.newline

end EntryText

/-- The lines of the entries of a literal, each after a line feed and `indent`; a comma follows code that
has more code after it. -/
def entryLines (indent : Text) : List EntryText → Text
  | [] => []
  | e :: rest =>
    [Text.newline] ++ indent ++ e.text
      ++ (if e.isCode && rest.any (·.isCode) then ("," : Text) else [])
      ++ entryLines indent rest

/-- The text of a literal between its brackets at a level. -/
def literalText (unit : Text) (depth : Nat) (opening closing pad : Text) (entries : List EntryText) : Text :=
  if entries.isEmpty then opening ++ closing
  else if entries.any (·.needsOwnLine) then
    opening ++ entryLines (indentation unit (depth + 1)) entries ++ [Text.newline] ++ indentation unit depth ++ closing
  else opening ++ pad ++ Text.join ", " (entries.map (·.text)) ++ pad ++ closing

/-- The text of a function with these lines as its body. -/
def arrowText (unit : Text) (depth : Nat) (params : List Text) (body : List Text) : Text :=
  let head : Text := "(" ++ bindingList params ++ ") => \x7b"
  if body.isEmpty then head ++ "\x7d"
  else head ++ [Text.newline] ++ Text.join [Text.newline] body ++ [Text.newline] ++ indentation unit depth ++ "\x7d"

/-- The keyword and a blank. -/
def Declaration.text : Option Declaration → Text
  | none => []
  | some .const => "const "
  | some .let => "let "

/-- An expression statement; an opening brace in front would be read as a block, so it goes in
parentheses. -/
def statementText (text : Text) : Text :=
  if ("\x7b" : Text).isPrefixOf text then "(" ++ text ++ ")" else text

mutual

/-- The text of an expression. -/
def Expr.text (unit : Text) (depth : Nat) (e : Expr) : Text :=
  match e with
  | .null => "null"
  | .this => "this"
  | .boolean b => if b then "true" else "false"
  | .integer v => Text.ofInt v.toInt
  | .float x => floatLiteral x
  | .delay x => floatInFull x
  | .string value => quote value
  | .name source => binding source
  | .host text => text
  | .member object property => receiverText (object.text unit depth) ++ Script.member property
  | .index object key => receiverText (object.text unit depth) ++ "[" ++ key.text unit depth ++ "]"
  | .call callee arguments =>
    callee.text unit depth ++ "(" ++ Text.join ", " (Expr.texts unit depth arguments) ++ ")"
  | .construct type arguments =>
    "new " ++ type ++ "(" ++ Text.join ", " (Expr.texts unit depth arguments) ++ ")"
  | .unary operator operand => operator ++ operand.text unit depth
  | .binary left operator right =>
    left.text unit depth ++ " " ++ operator ++ " " ++ right.text unit depth
  | .conditional condition consequence alternative =>
    condition.text unit depth ++ " ? " ++ consequence.text unit depth ++ " : " ++ alternative.text unit depth
  | .assign target value => target.text unit depth ++ " = " ++ value.text unit depth
  | .group inner => "(" ++ inner.text unit depth ++ ")"
  | .arrow params body => arrowText unit depth params (Stmt.allLines unit (depth + 1) body)
  | .array entries => literalText unit depth "[" "]" [] (Entry.texts unit (depth + 1) entries)
  | .object entries =>
    literalText unit depth "\x7b" "\x7d" " " (Entry.texts unit (depth + 1) entries)

/-- The texts of expressions. -/
def Expr.texts (unit : Text) (depth : Nat) (es : List Expr) : List Text :=
  match es with
  | [] => []
  | e :: rest => e.text unit depth :: Expr.texts unit depth rest

/-- The text of an entry. -/
def Entry.text (unit : Text) (depth : Nat) (e : Entry) : EntryText :=
  match e with
  | .value e => .code (e.text unit depth)
  | .named key e => .code (propertyKey key ++ ": " ++ e.text unit depth)
  | .computed key e => .code ("[" ++ key.text unit depth ++ "]: " ++ e.text unit depth)
  | .comment tag => .comment (commentText tag)

/-- The texts of entries. -/
def Entry.texts (unit : Text) (depth : Nat) (es : List Entry) : List EntryText :=
  match es with
  | [] => []
  | e :: rest => e.text unit depth :: Entry.texts unit depth rest

/-- The lines of a statement. -/
def Stmt.lines (unit : Text) (depth : Nat) (s : Stmt) : List Text :=
  match s with
  | .comment tag => emitted unit depth (commentText tag)
  | .hoist names => emitted unit depth ("let " ++ bindingList names ++ ";")
  | .assign declaration target operator value =>
    emitted unit depth (Declaration.text declaration ++ target.text unit depth ++ " " ++ operator
      ++ "= " ++ value.text unit depth ++ ";")
  | .expr e => emitted unit depth (statementText (e.text unit depth) ++ ";")
  | .ret e => emitted unit depth ("return " ++ e.text unit depth ++ ";")
  | .leave => emitted unit depth "return;"
  | .branch condition body alternative =>
    emitted unit depth ("if (" ++ condition.text unit depth ++ ") \x7b")
      ++ Stmt.allLines unit (depth + 1) body ++ alternative.lines unit depth
      ++ emitted unit depth "\x7d"
  | .loop condition body =>
    emitted unit depth ("while (" ++ condition.text unit depth ++ ") \x7b")
      ++ Stmt.allLines unit (depth + 1) body ++ emitted unit depth "\x7d"
  | .function name params body =>
    emitted unit depth ("function " ++ binding name ++ "(" ++ bindingList params ++ ") \x7b")
      ++ Stmt.allLines unit (depth + 1) body ++ emitted unit depth "\x7d"

/-- The lines of an alternative. -/
def Alternative.lines (unit : Text) (depth : Nat) (a : Alternative) : List Text :=
  match a with
  | .none => []
  | .otherwise body => emitted unit depth "\x7d else \x7b" ++ Stmt.allLines unit (depth + 1) body
  | .elif condition body rest =>
    emitted unit depth ("\x7d else if (" ++ condition.text unit depth ++ ") \x7b")
      ++ Stmt.allLines unit (depth + 1) body ++ rest.lines unit depth

/-- The lines of statements. -/
def Stmt.allLines (unit : Text) (depth : Nat) (ss : List Stmt) : List Text :=
  match ss with
  | [] => []
  | s :: rest => s.lines unit depth ++ Stmt.allLines unit depth rest

end

end Transpiler.Script
