import Transpiler.Proofs.Script.Tally

/-!
# Writing code as it goes

The generator builds a tree and prints it afterwards. Here the same code is written in one pass, line by line
into a draft: the bodies around the current place, the lines so far and the current depth are all part of the
draft, and change while a block inside an expression is written.
-/

namespace Transpiler.Script

/-! ## Drafts -/

/-- A function-level body that is being written: its frame, and the names declared at its start. -/
structure Region where
  frame : Frame
  hoisted : List Text
deriving DecidableEq

/-- The region of a body. -/
def Region.ofBody (outer : List Region) (params : List Text) (body : List Node) : Region where
  frame := .ofBody (outer.map (·.frame)) params body
  hoisted := Script.hoisted (outer.map (·.frame)) params body

/-- The state of writing code. -/
structure Draft where
  /-- The bodies around the current place, innermost first. -/
  regions : List Region
  /-- The lines written so far. -/
  lines : List Text
  /-- The level of the next line. -/
  depth : Nat
  /-- The number of top-level nodes that became code. -/
  statements : Nat
  /-- The number of diagnostic comments made. -/
  unsupported : Nat
deriving DecidableEq

namespace Draft

/-- The frames of the regions. -/
def frames (d : Draft) : List Frame := d.regions.map (·.frame)

/-- The draft with this count of comments. -/
def counted (d : Draft) (count : Nat) : Draft := { d with unsupported := count }

@[simp] lemma frames_counted (d : Draft) (count : Nat) : (d.counted count).frames = d.frames := rfl

/-- A draft with frames only. -/
def inFrames (frames : List Frame) : Draft := ⟨frames.map (⟨·, []⟩), [], 0, 0, 0⟩

lemma frames_inFrames (frames : List Frame) : (inFrames frames).frames = frames :=
  (List.map_map ..).trans (List.map_id frames)

end Draft

/-- A step of writing code. It fails with the tag of the construct that cannot be expressed. -/
abbrev Write := EStateM Text Draft

namespace Write

/-- Runs a step and gives its failure as a value. The draft stays as the step left it. -/
def attempt {α : Type} (x : Write α) : Write (Except Text α) := fun d =>
  match x d with
  | .ok a d' => .ok (.ok a) d'
  | .error tag d' => .ok (.error tag) d'

/-- Refuses the node. -/
def refuse {α : Type} (tag : Text) : Write α := throw tag

/-- The current depth. -/
def depth : Write Nat := do return (← get).depth

/-- Writes a line. -/
def emit (o : Options) (text : Text) : Write Unit :=
  modify fun d => { d with lines := d.lines ++ emitted o.indent d.depth text }

/-- Counts a diagnostic comment and gives its text. -/
def remark (tag : Text) : Write Text := do
  modify fun d => { d with unsupported := d.unsupported + 1 }
  return commentText tag

/-- Runs `x` one level deeper. -/
def deeper {α : Type} (x : Write α) : Write α := do
  modify fun d => { d with depth := d.depth + 1 }
  let result ← x
  modify fun d => { d with depth := d.depth - 1 }
  return result

/-- Runs a step one level deeper and takes the lines it wrote out of the draft. -/
def capture (x : Write Unit) : Write (List Text) := do
  let saved := (← get).lines
  modify fun d => { d with lines := [], depth := d.depth + 1 }
  x
  let written := (← get).lines
  modify fun d => { d with lines := saved, depth := d.depth - 1 }
  return written

/-- Runs a step inside a block, whose body is one more around the current place. -/
def inBlock {α : Type} (region : Region) (x : Write α) : Write α := do
  modify fun d => { d with regions := region :: d.regions }
  let result ← x
  modify fun d => { d with regions := d.regions.tail }
  return result

/-- Runs a step inside a method, whose body stands alone. -/
def inMethod {α : Type} (region : Region) (x : Write α) : Write α := do
  let saved := (← get).regions
  modify fun d => { d with regions := [region] }
  let result ← x
  modify fun d => { d with regions := saved }
  return result

/-- Writes the declarations at the start of the current body. -/
def declareHoisted (o : Options) : Write Unit := do
  match (← get).regions with
  | [] => return
  | r :: _ => if r.hoisted.isEmpty then return else emit o ("let " ++ bindingList r.hoisted ++ ";")

/-- Declares a name. -/
def declare (name : Text) : Write Unit :=
  modify fun d => match d.regions with
    | [] => d
    | r :: rest => { d with regions := { r with frame := { r.frame with declared := name :: r.frame.declared } } :: rest }

/-! ## Texts of expressions -/

/-- The text as an operand. -/
def operandText (n : Node) (text : Text) : Text := if needsGroup n then "(" ++ text ++ ")" else text

/-- The text as a condition. -/
def conditionText (n : Node) (negated : Bool) (text : Text) : Text :=
  if negated then "!" ++ operandText n text else text

/-- The text of a variable. -/
def variableText (name : Text) : Scope → Text
  | .object => "this" ++ member (dropSigils name)
  | .global => "globalThis" ++ member (name.dropByte '$')
  | .local | .constant => binding name

/-- The text of a delay in milliseconds, from its argument in seconds. -/
def delayText (seconds : Node) (text : Text) : Text :=
  match seconds with
  | .integer _ v => Text.ofInt (v * 1000).toInt
  | .float _ x => floatInFull (x.scale 1000)
  | _ => operandText seconds text ++ " * 1000"

/-- The text of a call. -/
def callText (callee : Text) (arguments : List Text) : Text := callee ++ "(" ++ Text.join ", " arguments ++ ")"

/-- The text of a method call. -/
def methodText (object name : Text) (arguments : List Text) : Text :=
  match arguments with
  | [a] =>
    if name == "[]" then receiverText object ++ "[" ++ a ++ "]"
    else if name == "<<" then callText (receiverText object ++ member "push") [a]
    else if isSetter name then receiverText object ++ member name.dropLast ++ " = " ++ a
    else callText (receiverText object ++ member name) [a]
  | [a, b] =>
    if name == "[]=" then receiverText object ++ "[" ++ a ++ "]" ++ " = " ++ b
    else callText (receiverText object ++ member name) [a, b]
  | _ => callText (receiverText object ++ member name) arguments

/-- The first line of a function. -/
def functionHead (name : Text) (params : List Text) : Text :=
  "function " ++ binding name ++ "(" ++ bindingList params ++ ") \x7b"

/-- A block as a function, from the writing of its statements. -/
def arrow (o : Options) (params : List Text) (body : List Node) (statements : Write Unit) : Write Text := do
  let outer := (← get).regions
  let lines ← inBlock (.ofBody outer params body) (capture do
    declareHoisted o
    statements)
  return arrowText o.indent (← depth) params lines

/-! ## Statements from the texts of their expressions -/

/-- The statement written from an expression, or the comment that stands for it. -/
def orRemark (o : Options) (e : Write Text) (build : Text → Write Unit) : Write Outcome := do
  match ← attempt e with
  | .error tag =>
    emit o (← remark tag)
    return .unsupported
  | .ok text =>
    build text
    return .emitted

/-- The text of an entry of a literal, or the comment that stands for it. -/
def entryOr (e : Write EntryText) : Write EntryText := do
  match ← attempt e with
  | .ok entry => return entry
  | .error tag => return .comment (← remark tag)

/-- Writes an assignment, and returns its target if it `yields`. -/
def assignment (o : Options) (declaration : Option Declaration) (target operator value : Text) (yields : Bool) :
    Write Unit := do
  emit o (Declaration.text declaration ++ target ++ " " ++ operator ++ "= " ++ value ++ ";")
  if yields then emit o ("return " ++ target ++ ";")

/-- An assignment statement for a value. A plain assignment to a name that is not bound yet declares it. -/
def assign (o : Options) (name : Text) (scope : Scope) (operator value : Text) (yields : Bool) : Write Unit := do
  let frames := (← get).frames
  if isBound scope && operator.isEmpty && !resolves frames name then
    declare name
    assignment o (some (declarationOf frames name)) (variableText name scope) operator value yields
  else assignment o none (variableText name scope) operator value yields

/-- Writes a hash pair. -/
def pair (key : Node) (k v : Write Text) : Write EntryText := do
  match key with
  | .symbol _ name => return .code (propertyKey name ++ ": " ++ (← v))
  | .string _ name => return .code (propertyKey name ++ ": " ++ (← v))
  | _ => do
    let k ← k
    return .code ("[" ++ k ++ "]: " ++ (← v))

mutual

/-- Writes an expression. -/
def expr (o : Options) (n : Node) : Write Text :=
  match n with
  | .absent => return "null"
  | .string _ value => return quote value
  | .symbol _ value => return quote value
  | .integer _ value => return Text.ofInt value.toInt
  | .float _ value => return floatLiteral value
  | .boolean _ value => return if value then "true" else "false"
  | .nil _ => return "null"
  | .self _ => return "this"
  | .var _ name scope => return variableText name scope
  | .array _ elements => do
    let entries ← deeper (elementTexts o elements)
    return literalText o.indent (← depth) "[" "]" [] entries
  | .hash _ pairs => do
    let entries ← deeper (pairTexts o pairs)
    return literalText o.indent (← depth) "\x7b" "\x7d" " " entries
  | .block _ params body => arrow o params body (statements o body true)
  | .cond _ condition negated [consequence] [] => do
    let c ← expr o condition
    let t ← expr o consequence
    return conditionText condition negated c ++ " ? " ++ operandText consequence t ++ " : " ++ "null"
  | .cond _ condition negated [consequence] [alternative] => do
    let c ← expr o condition
    let t ← expr o consequence
    let e ← expr o alternative
    return conditionText condition negated c ++ " ? " ++ operandText consequence t ++ " : " ++ operandText alternative e
  | .cond .. => refuse "If"
  | .program _ [only] => expr o only
  | .program .. => refuse "Program"
  | .call _ .absent name arguments blk =>
    let function (yields : Bool) : Write (List Text) :=
      match blk with
      | .block _ params body => do
        let f ← arrow o params body (statements o body yields)
        return [f]
      | _ => return []
    let plain : Write Text := do
      let args ← exprs o arguments
      let b ← function true
      return callText (binding name) (args ++ b)
    if name == "puts" then do
      let args ← exprs o arguments
      return callText o.print args
    else if name == "grab" then
      match arguments with
      | [id] =>
        if blk.isBlock then plain
        else do
          let id ← expr o id
          return callText o.lookup [id]
      | _ => plain
    else if name == "wait" then
      match arguments with
      | [] => do
        let f ← function false
        return callText o.timer [f.headD "() => \x7b\x7d", "0"]
      | [seconds] => do
        let e ← expr o seconds
        let f ← function false
        return callText o.timer [f.headD "() => \x7b\x7d", delayText seconds e]
      | _ => plain
    else plain
  | .call _ receiver name arguments blk =>
    if isOperator receiver name arguments blk then
      match arguments with
      | [] => do
        let r ← expr o receiver
        return (unaryOperator? name).getD name ++ operandText receiver r
      | a :: _ => do
        let r ← expr o receiver
        let e ← expr o a
        return operandText receiver r ++ " " ++ (binaryOperator? name).getD name ++ " " ++ operandText a e
    else do
      let args ← exprs o arguments
      let function : Write (List Text) :=
        match blk with
        | .block _ params body => do
          let f ← arrow o params body (statements o body true)
          return [f]
        | _ => return []
      match constructed? o receiver name with
      | some type => return callText ("new " ++ type) (args ++ (← function))
      | none => do
        let r ← expr o receiver
        let object := operandText receiver r
        if blk.isBlock then return callText (receiverText object ++ member name) (args ++ (← function))
        else return methodText object name args
  | .assignment .. | .loop .. | .method .. | .ret .. | .comment .. | .unknown .. => refuse n.tag

/-- Writes expressions. -/
def exprs (o : Options) (ns : List Node) : Write (List Text) :=
  match ns with
  | [] => return []
  | n :: rest => do
    let e ← expr o n
    let es ← exprs o rest
    return e :: es

/-- Writes elements. -/
def elementTexts (o : Options) (ns : List Node) : Write (List EntryText) :=
  match ns with
  | [] => return []
  | n :: rest => do
    let e ← entryOr (do return .code (← expr o n))
    let es ← elementTexts o rest
    return e :: es

/-- Writes hash pairs. -/
def pairTexts (o : Options) (ps : List (Node × Node)) : Write (List EntryText) :=
  match ps with
  | [] => return []
  | (key, value) :: rest => do
    let e ← entryOr (pair key (expr o key) (expr o value))
    let es ← pairTexts o rest
    return e :: es

/-- Writes the statements of a node whose expression is `asExpr`. -/
def statement (o : Options) (n : Node) (asExpr : Write Text) (yields : Bool) : Write Outcome :=
  match n with
  | .absent | .comment .. => return .dropped
  | .unknown _ tag _ => do
    emit o (← remark tag)
    return .unsupported
  | .program _ body => do
    statements o body yields
    return .emitted
  | .assignment _ name scope operator value =>
    orRemark o (expr o value) fun v => assign o name scope operator v yields
  | .cond _ condition negated consequence alternative =>
    orRemark o (do return conditionText condition negated (← expr o condition)) fun c => do
      emit o ("if (" ++ c ++ ") \x7b")
      deeper (statements o consequence yields)
      alternatives o alternative (statements o alternative yields) yields
      emit o "\x7d"
  | .loop _ condition negated body =>
    orRemark o (do return conditionText condition negated (← expr o condition)) fun c => do
      emit o ("while (" ++ c ++ ") \x7b")
      deeper (statements o body false)
      emit o "\x7d"
  | .method _ name params body => do
    inMethod (.ofBody [] params body) do
      emit o (functionHead name params)
      deeper do
        declareHoisted o
        statements o body true
      emit o "\x7d"
    return .emitted
  | .ret _ .absent => do
    emit o "return;"
    return .emitted
  | .ret _ value => orRemark o (expr o value) fun v => emit o ("return " ++ v ++ ";")
  | .call .. | .block .. | .var .. | .self .. | .string .. | .integer .. | .float .. | .boolean ..
  | .nil .. | .symbol .. | .array .. | .hash .. =>
    orRemark o asExpr fun text => emit o ((if yields then "return " ++ text else statementText text) ++ ";")

/-- Writes statements. -/
def statements (o : Options) (ns : List Node) (yields : Bool) : Write Unit :=
  match ns with
  | [] => return
  | n :: rest => do
    let _ ← statement o n (expr o n) (yields && rest.all Node.isComment)
    statements o rest yields

/-- Writes what follows the first branch, where `ordinary` writes the nodes as a plain body. -/
def alternatives (o : Options) (ns : List Node) (ordinary : Write Unit) (yields : Bool) : Write Unit :=
  match ns with
  | [] => return
  | [.cond _ condition negated consequence alternative] => do
    match ← attempt (do return conditionText condition negated (← expr o condition)) with
    | .ok c =>
      emit o ("\x7d else if (" ++ c ++ ") \x7b")
      deeper (statements o consequence yields)
      alternatives o alternative (statements o alternative yields) yields
    | .error _ =>
      emit o "\x7d else \x7b"
      deeper ordinary
  | _ => do
    emit o "\x7d else \x7b"
    deeper ordinary

end

/-! ## Programs -/

/-- Writes the top level. -/
def topLevel (o : Options) : List Node → Write Unit
  | [] => return
  | n :: rest => do
    let outcome ← statement o n (expr o n) false
    modify fun d => { d with statements := d.statements + if outcome == .emitted then 1 else 0 }
    topLevel o rest

/-- Writes a program. -/
def program (o : Options) (nodes : List Node) : Write Unit := do
  declareHoisted o
  topLevel o nodes

/-- The output of a program. -/
def compile (o : Options) (nodes : List Node) : Output :=
  match program o nodes ⟨[.ofBody [] [] nodes], [], 0, 0, 0⟩ with
  | .ok _ d => ⟨d.lines, d.statements, d.unsupported⟩
  | .error _ d => ⟨d.lines, d.statements, d.unsupported⟩

end Write

/-! ## Trees and their texts -/

section Texts

variable (unit : Text) (depth : Nat)

lemma text_grouped (n : Node) (e : Expr) : (grouped n e).text unit depth = Write.operandText n (e.text unit depth) := by
  rw [grouped, Write.operandText]
  split_ifs <;> rfl

lemma text_conditionOf (n : Node) (negated : Bool) (e : Expr) :
    (conditionOf n negated e).text unit depth = Write.conditionText n negated (e.text unit depth) := by
  cases negated with
  | false => rfl
  | true => exact congrArg (("!" : Text) ++ ·) (text_grouped unit depth n e)

lemma text_variableExpr (name : Text) (scope : Scope) :
    (variableExpr name scope).text unit depth = Write.variableText name scope := by
  cases scope <;> rfl

lemma text_thousandfold (e : Expr) :
    (Expr.binary e "*" (.integer 1000)).text unit depth = e.text unit depth ++ " * 1000" := by
  simp only [Expr.text, List.append_assoc]
  rfl

lemma text_delayOf (seconds : Node) (e : Expr) :
    (delayOf seconds e).text unit depth = Write.delayText seconds (e.text unit depth) := by
  have hproduct := text_thousandfold unit depth (grouped seconds e)
  rw [text_grouped] at hproduct
  cases seconds with
  | integer => rfl
  | float => rfl
  | _ => exact hproduct

lemma text_methodCall (object : Expr) (name : Text) (arguments : List Expr) :
    (methodCall object name arguments).text unit depth
      = Write.methodText (object.text unit depth) name (Expr.texts unit depth arguments) := by
  obtain _ | ⟨a, _ | ⟨b, _ | ⟨c, rest⟩⟩⟩ := arguments
  · rfl
  · rw [methodCall, Expr.texts, Expr.texts, Write.methodText]
    split_ifs <;> rfl
  · rw [methodCall, Expr.texts, Expr.texts, Expr.texts, Write.methodText]
    split_ifs <;> rfl
  · rfl

lemma texts_append (es es' : List Expr) :
    Expr.texts unit depth (es ++ es') = Expr.texts unit depth es ++ Expr.texts unit depth es' := by
  induction es with
  | nil => rfl
  | cons e rest ih => simp [Expr.texts, ih]

lemma allLines_append (ss ss' : List Stmt) :
    Stmt.allLines unit depth (ss ++ ss') = Stmt.allLines unit depth ss ++ Stmt.allLines unit depth ss' := by
  induction ss with
  | nil => rfl
  | cons s rest ih => simp [Stmt.allLines, ih]

lemma texts_headD (f : List Expr) :
    (f.headD (.arrow [] [])).text unit depth = (Expr.texts unit depth f).headD "() => \x7b\x7d" := by
  cases f <;> rfl

end Texts

/-! ## Steps against steps -/

variable {α β γ δ : Type}

variable {region : Region} {a : α}

namespace Write

variable {d d' : Draft} {x : Write α}

lemma attempt_of_eq_concluded {r : Except Text α} (h : x d = concluded r d') : attempt x d = .ok r d' := by
  rw [attempt, h]
  cases r <;> rfl

lemma deeper_of_eq_ok (h : x { d with depth := d.depth + 1 } = .ok a d') :
    deeper x d = .ok a { d' with depth := d'.depth - 1 } := by
  change (x >>= fun result => _) { d with depth := d.depth + 1 } = _
  rw [bind_of_eq_ok h]
  rfl

lemma inBlock_of_eq_ok (h : x { d with regions := region :: d.regions } = .ok a d') :
    inBlock region x d = .ok a { d' with regions := d'.regions.tail } := by
  change (x >>= fun result => _) { d with regions := region :: d.regions } = _
  rw [bind_of_eq_ok h]
  rfl

lemma inMethod_of_eq_ok (h : x { d with regions := [region] } = .ok a d') :
    inMethod region x d = .ok a { d' with regions := d.regions } := by
  change (x >>= fun result => _) { d with regions := [region] } = _
  rw [bind_of_eq_ok h]
  rfl

lemma capture_of_eq_ok {x : Write Unit} (h : x { d with lines := [], depth := d.depth + 1 } = .ok () d') :
    capture x d = .ok d'.lines { d' with lines := d.lines, depth := d'.depth - 1 } := by
  change (x >>= fun _ => _) { d with lines := [], depth := d.depth + 1 } = _
  rw [bind_of_eq_ok h]
  rfl

lemma declareHoisted_eq (o : Options) {d : Draft} {outer : List Region} (h : d.regions = region :: outer) :
    declareHoisted o d = .ok ()
      { d with lines := d.lines ++ Stmt.allLines o.indent d.depth (hoistStatement region.hoisted) } := by
  obtain ⟨regions, lines, depth, statements, unsupported⟩ := d
  obtain rfl : regions = region :: outer := h
  cases hempty : region.hoisted.isEmpty with
  | true =>
    have hnone : hoistStatement region.hoisted = [] := by rw [hoistStatement, if_pos hempty]
    rw [declareHoisted, bind_of_eq_ok (x := get) rfl, hnone]
    simp only [hempty, if_true]
    exact congrArg (EStateM.Result.ok ()) (by rw [Stmt.allLines, List.append_nil])
  | false =>
    have hsome : hoistStatement region.hoisted = [.hoist region.hoisted] := by
      rw [hoistStatement, if_neg (by simp [hempty])]
    rw [declareHoisted, bind_of_eq_ok (x := get) rfl, hsome]
    simp only [hempty]
    exact congrArg (EStateM.Result.ok ()) (by rw [Stmt.allLines, Stmt.allLines, List.append_nil]; rfl)

end Write

/-! ## All nodes -/

namespace Write

variable (o : Options)

/-- Writes a block as an argument. -/
def blockArgument (blk : Node) (yields : Bool) : Write (List Text) :=
  match blk with
  | .block _ params body => do
    let f ← arrow o params body (statements o body yields)
    return [f]
  | _ => return []

/-- Writes a plain call. -/
def plainCall (name : Text) (arguments : List Node) (blk : Node) : Write Text := do
  let args ← exprs o arguments
  let b ← blockArgument o blk true
  return callText (binding name) (args ++ b)

lemma expr_call_absent (span : Span) (name : Text) (arguments : List Node) (blk : Node) :
    expr o (.call span .absent name arguments blk) =
      if name == "puts" then do
        let args ← exprs o arguments
        return callText o.print args
      else if name == "grab" then
        match arguments with
        | [id] =>
          if blk.isBlock then plainCall o name arguments blk
          else do
            let id ← expr o id
            return callText o.lookup [id]
        | _ => plainCall o name arguments blk
      else if name == "wait" then
        match arguments with
        | [] => do
          let f ← blockArgument o blk false
          return callText o.timer [f.headD "() => \x7b\x7d", "0"]
        | [seconds] => do
          let e ← expr o seconds
          let f ← blockArgument o blk false
          return callText o.timer [f.headD "() => \x7b\x7d", delayText seconds e]
        | _ => plainCall o name arguments blk
      else plainCall o name arguments blk := by
  rw [expr.eq_def]
  rfl

lemma expr_call (span : Span) {receiver : Node} (h : receiver.isAbsent = false) (name : Text)
    (arguments : List Node) (blk : Node) :
    expr o (.call span receiver name arguments blk) =
      if isOperator receiver name arguments blk then
        match arguments with
        | [] => do
          let r ← expr o receiver
          return (unaryOperator? name).getD name ++ operandText receiver r
        | a :: _ => do
          let r ← expr o receiver
          let e ← expr o a
          return operandText receiver r ++ " " ++ (binaryOperator? name).getD name ++ " " ++ operandText a e
      else do
        let args ← exprs o arguments
        match constructed? o receiver name with
        | some type => return callText ("new " ++ type) (args ++ (← blockArgument o blk true))
        | none => do
          let r ← expr o receiver
          let object := operandText receiver r
          if blk.isBlock then
            return callText (receiverText object ++ member name) (args ++ (← blockArgument o blk true))
          else return methodText object name args := by
  cases receiver with
  | absent => simp [Node.isAbsent] at h
  | _ =>
    rw [expr.eq_def]
    rfl

lemma statement_ret {value : Node} (h : value.isAbsent = false) (span : Span) (asExpr : Write Text)
    (yields : Bool) :
    statement o (.ret span value) asExpr yields
      = orRemark o (expr o value) fun v => emit o ("return " ++ v ++ ";") := by
  cases value with
  | absent => simp [Node.isAbsent] at h
  | _ =>
    rw [statement.eq_def]

end Write

end Transpiler.Script
