import Transpiler.Proofs.Script.Lexing

/-!
# Reading generated code: operators

Tokens are grouped by JavaScript's precedence and associativity. The reader takes one token at a time and keeps what
is not complete on a stack: a unary operator waits for its operand, a binary one for its right side, a bracket for the
one that closes it. An operator first completes everything on the stack that binds tighter. Parentheses leave no trace
in the tree.

An operand is read as a unit whatever stands around it (`OperandText`); any other expression only between brackets or
on its own (`ExprText`). The lemmas say how the one is made of the other.
-/

namespace Transpiler.Script.Js

open List Text

/-! ## Trees -/

/-- An expression of JavaScript by its grouping. -/
inductive Tree where
  | this
  | null
  | boolean (value : Bool)
  /-- A number, as it is written. -/
  | number (text : Text)
  | string (value : Text)
  | name (text : Text)
  /-- A property after a dot. -/
  | member (object : Tree) (property : Text)
  /-- A property in brackets. -/
  | index (object key : Tree)
  | unary (operator : Text) (operand : Tree)
  | binary (left : Tree) (operator : Text) (right : Tree)
  | conditional (condition consequence alternative : Tree)
deriving DecidableEq, Repr

/-- The reserved words that are no expressions. -/
def keywords : List Text :=
  List.map ofString ["await", "break", "case", "catch", "class", "const", "continue", "debugger",
    "default", "delete", "do", "else", "enum", "export", "extends", "finally", "for", "function", "if",
    "implements", "import", "in", "instanceof", "interface", "let", "new", "package", "private",
    "protected", "public", "return", "static", "super", "switch", "throw", "try", "typeof", "var",
    "void", "while", "with", "yield"]

/-- The expression that is a single token. -/
def atom? : Token → Option Tree
  | .word w =>
    if w = "this" then some .this
    else if w = "null" then some .null
    else if w = "true" then some (.boolean true)
    else if w = "false" then some (.boolean false)
    else if w ∈ keywords then none
    else some (.name w)
  | .number t => some (.number t)
  | .string v => some (.string v)
  | .punct _ => none

/-- The binary operators from the loosest to the tightest level. All are left-associative but the
last. -/
def levels : List (Text × Nat) :=
  [("||", 1), ("&&", 2), ("|", 3), ("^", 4), ("&", 5), ("==", 6), ("!=", 6), ("===", 6), ("!==", 6),
    ("<", 7), (">", 7), ("<=", 7), (">=", 7), ("<<", 8), (">>", 8), (">>>", 8), ("+", 9), ("-", 9),
    ("*", 10), ("/", 10), ("%", 10), ("**", 11)]

/-- The unary operators; they bind tighter than all binary ones. -/
def unaryOperators : List Text := List.map ofString ["-", "+", "!", "~"]

/-! ## The stack of the reader -/

/-- An expression that has been begun. -/
inductive Pending where
  | unary (operator : Text)
  | binary (left : Tree) (operator : Text) (level : Nat)
  /-- Between `?` and `:`. -/
  | consequence (condition : Tree)
  /-- After the `:`. -/
  | alternative (condition consequence : Tree)
  /-- Inside parentheses. -/
  | group
  /-- Inside the brackets after an object. -/
  | key (object : Tree)
deriving DecidableEq, Repr

namespace Pending

/-- How tightly a pending expression holds on to the operand that follows; one that waits for a closing
token holds on to all that comes before it. -/
def level? : Pending → Option Nat
  | .unary _ => some 12
  | .binary _ _ level => some level
  | .alternative .. => some 0
  | .consequence _ | .group | .key _ => none

/-- The expression with its last operand. -/
def complete : Pending → Tree → Tree
  | .unary operator, e => .unary operator e
  | .binary left operator _, e => .binary left operator e
  | .alternative c t, e => .conditional c t e
  | .consequence _, e | .group, e | .key _, e => e

end Pending

/-- Whether a unary operator waits. -/
def holdsUnary : List Pending → Bool
  | .unary _ :: _ => true
  | _ => false

/-- Completes the pending expressions from level `least` on, with `e` as the operand of the innermost. -/
def close (least : Nat) (e : Tree) : List Pending → Tree × List Pending
  | [] => (e, [])
  | p :: rest =>
    match p.level? with
    | some level => if least ≤ level then close least (p.complete e) rest else (e, p :: rest)
    | none => (e, p :: rest)

/-- What the reader has read. -/
inductive Reading where
  /-- An operand has to follow. -/
  | awaiting (pending : List Pending)
  /-- An operand has been read. -/
  | having (e : Tree) (pending : List Pending)
  /-- The name of a property has to follow. -/
  | naming (object : Tree) (pending : List Pending)
deriving DecidableEq, Repr

namespace Reading

/-- What a punctuator makes of the operand before it. The left operand of `**` is no unary expression, and
its right operand takes in a further `**`. -/
def follow (e : Tree) (pending : List Pending) (p : Text) : Option Reading :=
  if p = "." then some (.naming e pending)
  else if p = "[" then some (.awaiting (.key e :: pending))
  else if p = "]" then
    match close 0 e pending with
    | (k, .key object :: outer) => some (.having (.index object k) outer)
    | _ => none
  else if p = ")" then
    match close 0 e pending with
    | (e, .group :: outer) => some (.having e outer)
    | _ => none
  else if p = "?" then
    let (condition, outer) := close 1 e pending
    some (.awaiting (.consequence condition :: outer))
  else if p = ":" then
    match close 0 e pending with
    | (t, .consequence condition :: outer) => some (.awaiting (.alternative condition t :: outer))
    | _ => none
  else
    match levels.lookup p with
    | none => none
    | some level =>
      if p = "**" ∧ holdsUnary pending then none
      else
        let (left, outer) := close (if p = "**" then level + 1 else level) e pending
        some (.awaiting (.binary left p level :: outer))

/-- What a token makes of what has been read. -/
def step : Reading → Token → Option Reading
  | .awaiting pending, .punct p =>
    if p = "(" then some (.awaiting (.group :: pending))
    else if p ∈ unaryOperators then some (.awaiting (.unary p :: pending))
    else none
  | .awaiting pending, t => (atom? t).map (.having · pending)
  | .having e pending, .punct p => follow e pending p
  | .having .., _ => none
  | .naming object pending, .word w => some (.having (.member object w) pending)
  | .naming .., _ => none

/-- The tree, if complete. -/
def result? : Reading → Option Tree
  | .having e pending =>
    match close 0 e pending with
    | (e, []) => some e
    | _ => none
  | _ => none

end Reading

/-- Parses tokens. -/
def parse (ts : List Token) : Option Tree := do (← ts.foldlM Reading.step (.awaiting [])).result?

/-- Parses a text. -/
def read (t : Text) : Option Tree := do parse (← lex t)

example : read "a - b - c" = some (.binary (.binary (.name "a") "-" (.name "b")) "-" (.name "c")) := by decide
example : read "a ** b ** c" = some (.binary (.name "a") "**" (.binary (.name "b") "**" (.name "c"))) := by decide
example : read "-a ** b" = none ∧ read "(-a) ** b" =
    some (.binary (.unary "-" (.name "a")) "**" (.name "b")) := by decide

/-! ## Closing -/

/-- Nothing on the stack reaches into what is read next: the stack is empty or its innermost expression
waits for a closing token. -/
def Barrier (pending : List Pending) : Prop := ∀ p ∈ pending.head?, p.level? = none

lemma barrier_nil : Barrier [] := by simp [Barrier]

lemma barrier_cons {p : Pending} (h : p.level? = none) (pending : List Pending) : Barrier (p :: pending) := by
  simpa [Barrier] using h

lemma Barrier.close_eq {pending : List Pending} (h : Barrier pending) (least : Nat) (e : Tree) :
    close least e pending = (e, pending) := by
  cases pending with
  | nil => rfl
  | cons p pending => simp [close, h p rfl]

lemma Barrier.holdsUnary_eq {pending : List Pending} (h : Barrier pending) : holdsUnary pending = false := by
  cases pending with
  | nil => rfl
  | cons p pending =>
    have hp := h p rfl
    cases p <;> first | rfl | cases hp

lemma close_cons {p : Pending} {level least : Nat} (hp : p.level? = some level) (h : least ≤ level)
    (e : Tree) (pending : List Pending) :
    close least e (p :: pending) = close least (p.complete e) pending := by
  simp [close, hp, h]

variable {least least' : Nat}

lemma close_of_le (hle : least' ≤ least) {e e' : Tree}
    {pending outer : List Pending} (h : close least e pending = (e', outer)) (houter : Barrier outer) :
    close least' e pending = (e', outer) := by
  induction pending generalizing e with
  | nil => exact h
  | cons p pending ih =>
    cases hp : p.level? with
    | none => simpa [close, hp] using h
    | some level =>
      by_cases hlevel : least ≤ level
      · rw [close_cons hp hlevel] at h
        rw [close_cons hp (Nat.le_trans hle hlevel)]
        exact ih h
      · -- an expression that stays pending is no barrier
        obtain ⟨rfl, rfl⟩ : e = e' ∧ p :: pending = outer := by simpa [close, hp, hlevel] using h
        exact absurd (houter p rfl) (by simp [hp])

/-! ## What follows an operand -/

section Follow

variable {e e' condition object : Tree} {pending outer : List Pending}

lemma follow_parenthesis (h : close 0 e pending = (e', .group :: outer)) :
    Reading.follow e pending ")" = some (.having e' outer) := by
  have heq : Reading.follow e pending ")" = match close 0 e pending with
      | (e, .group :: outer) => some (.having e outer)
      | _ => none := rfl
  rw [heq, h]

lemma follow_bracket (h : close 0 e pending = (e', .key object :: outer)) :
    Reading.follow e pending "]" = some (.having (.index object e') outer) := by
  have heq : Reading.follow e pending "]" = match close 0 e pending with
      | (k, .key object :: outer) => some (.having (.index object k) outer)
      | _ => none := rfl
  rw [heq, h]

lemma follow_question (h : close 1 e pending = (e', outer)) :
    Reading.follow e pending "?" = some (.awaiting (.consequence e' :: outer)) := by
  have heq : Reading.follow e pending "?" = match close 1 e pending with
      | (condition, outer) => some (.awaiting (.consequence condition :: outer)) := rfl
  rw [heq, h]

lemma follow_colon (h : close 0 e pending = (e', .consequence condition :: outer)) :
    Reading.follow e pending ":" = some (.awaiting (.alternative condition e' :: outer)) := by
  have heq : Reading.follow e pending ":" = match close 0 e pending with
      | (t, .consequence condition :: outer) => some (.awaiting (.alternative condition t :: outer))
      | _ => none := rfl
  rw [heq, h]

/-- Where nothing reaches into it, an operand is the left side of the operator after it. -/
lemma follow_operator {p : Text} {level : Nat} (hp : levels.lookup p = some level) (h : Barrier pending) :
    Reading.follow e pending p = some (.awaiting (.binary e p level :: pending)) := by
  have hother : ∀ q ∈ List.map ofString [".", "[", "]", ")", "?", ":"], p ≠ q := by
    rintro q hq rfl
    have : ∀ q ∈ List.map ofString [".", "[", "]", ")", "?", ":"], levels.lookup q = none := by
      decide
    rw [this p hq] at hp
    cases hp
  simp only [map_cons, map_nil, forall_mem_cons] at hother
  simp [Reading.follow, hother, hp, h.holdsUnary_eq, h.close_eq]

end Follow

/-! ## Operands and expressions -/

/-- The tokens take the reader from one state to another. -/
def Leads (r : Reading) (ts : List Token) (r' : Reading) : Prop := ts.foldlM Reading.step r = some r'

lemma Leads.trans {r r' r'' : Reading} {ts ts' : List Token} (h : Leads r ts r')
    (h' : Leads r' ts' r'') : Leads r (ts ++ ts') r'' := by
  unfold Leads at *
  rw [foldlM_append, h]
  exact h'

variable {ts : List Token}

lemma Leads.cons {r r' r'' : Reading} {t : Token} (h : r.step t = some r')
    (h' : Leads r' ts r'') : Leads r (t :: ts) r'' := by
  unfold Leads at *
  rw [foldlM_cons, h]
  exact h'

/-- The tokens are read as an operand wherever one can stand. -/
def IsOperand (ts : List Token) (e : Tree) : Prop :=
  ∀ pending, Leads (.awaiting pending) ts (.having e pending)

/-- The tokens are read as an expression that is completed by closing from level `least` on, where nothing
before them reaches into it. -/
def IsExpr (least : Nat) (ts : List Token) (e : Tree) : Prop :=
  ∀ pending, Barrier pending → ∃ last inner,
    Leads (.awaiting pending) ts (.having last inner) ∧ close least last inner = (e, pending)

variable {e : Tree}

lemma IsOperand.isExpr (h : IsOperand ts e) (least : Nat) :
    IsExpr least ts e := fun pending hp => ⟨e, pending, h pending, hp.close_eq least e⟩

lemma IsExpr.of_le (hle : least' ≤ least) (h : IsExpr least ts e) : IsExpr least' ts e := by
  intro pending hp
  obtain ⟨last, inner, hrun, hclose⟩ := h pending hp
  exact ⟨last, inner, hrun, close_of_le hle hclose hp⟩

lemma isOperand_atom {t : Token} (h : atom? t = some e) : IsOperand [t] e := by
  intro pending
  cases t with
  | punct p => cases h
  | word w => simp [Leads, Reading.step, h]
  | number w => simp [Leads, Reading.step, h]
  | string v => simp [Leads, Reading.step, h]

lemma IsOperand.member (h : IsOperand ts e) (w : Text) : IsOperand (ts ++ [.punct ".", .word w]) (.member e w) :=
  fun pending => (h pending).trans rfl

/-- A parenthesis closes the expression that it was opened for. -/
lemma IsExpr.group (h : IsExpr 0 ts e) : IsOperand (.punct "(" :: ts ++ [.punct ")"]) e := by
  intro pending
  obtain ⟨last, inner, hrun, hclose⟩ := h (.group :: pending) (barrier_cons rfl pending)
  have hopen : Reading.step (.awaiting pending) (.punct "(") = some (.awaiting (.group :: pending)) := rfl
  have hend : Leads (.having last inner) [.punct ")"] (.having e pending) :=
    .cons (follow_parenthesis hclose) rfl
  exact (Leads.cons hopen hrun).trans hend

lemma IsOperand.index {ts ks : List Token} {e k : Tree} (h : IsOperand ts e) (hk : IsExpr 0 ks k) :
    IsOperand (ts ++ (.punct "[" :: ks ++ [.punct "]"])) (.index e k) := by
  intro pending
  obtain ⟨last, inner, hrun, hclose⟩ := hk (.key e :: pending) (barrier_cons rfl pending)
  have hopen : Reading.step (.having e pending) (.punct "[") = some (.awaiting (.key e :: pending)) := rfl
  have hend : Leads (.having last inner) [.punct "]"] (.having (.index e k) pending) :=
    .cons (follow_bracket hclose) rfl
  exact (h pending).trans ((Leads.cons hopen hrun).trans hend)

variable {op : Text}

lemma IsOperand.unary (h : IsOperand ts e) (hop : op ∈ unaryOperators) : IsExpr 12 (.punct op :: ts) (.unary op e) := by
  intro pending hp
  have hne : op ≠ "(" := by
    rintro rfl
    exact absurd hop (by decide)
  have hstep : Reading.step (.awaiting pending) (.punct op) = some (.awaiting (.unary op :: pending)) := by
    simp [Reading.step, hne, hop]
  refine ⟨e, .unary op :: pending, .cons hstep (h _), ?_⟩
  rw [close_cons rfl (Nat.le_refl 12)]
  exact hp.close_eq 12 _

lemma IsOperand.binary {ls rs : List Token} {l r : Tree} (hl : IsOperand ls l) (hr : IsOperand rs r)
    {level : Nat} (hop : levels.lookup op = some level) :
    IsExpr level (ls ++ .punct op :: rs) (.binary l op r) := by
  intro pending hp
  refine ⟨r, .binary l op level :: pending, ?_, ?_⟩
  · exact (hl pending).trans (.cons (follow_operator hop hp) (hr _))
  · rw [close_cons rfl (Nat.le_refl level)]
    exact hp.close_eq level _

/-- The condition is closed by the question mark, the consequence by the colon. -/
lemma IsExpr.conditional {cs ts es : List Token} {c t e : Tree} (hc : IsExpr 1 cs c)
    (ht : IsOperand ts t) (he : IsOperand es e) :
    IsExpr 0 (cs ++ .punct "?" :: (ts ++ .punct ":" :: es)) (.conditional c t e) := by
  intro pending hp
  obtain ⟨last, inner, hrun, hclose⟩ := hc pending hp
  have hcolon : close 0 t (.consequence c :: pending) = (t, .consequence c :: pending) :=
    (barrier_cons rfl pending).close_eq 0 t
  refine ⟨e, .alternative c t :: pending, ?_, ?_⟩
  · exact hrun.trans (.cons (follow_question hclose) ((ht _).trans (.cons (follow_colon hcolon) (he _))))
  · rw [close_cons rfl (Nat.le_refl 0)]
    exact hp.close_eq 0 _

lemma IsExpr.parse_eq (h : IsExpr 0 ts e) : parse ts = some e := by
  obtain ⟨last, inner, hrun, hclose⟩ := h [] barrier_nil
  have hresult : (Reading.having last inner).result? = some e := by simp [Reading.result?, hclose]
  unfold Leads at hrun
  simp [parse, hrun, hresult]

/-! ## Texts -/

/-- The text is read as an operand, and no operator in front runs into it. -/
structure OperandText (t : Text) (e : Tree) : Prop where
  tokens : ∃ ts, Spells t ts ∧ IsOperand ts e
  ne_nil : t ≠ []
  first : ∀ b ∈ t.head?, prolongs b = false

/-- The text is read as an expression that closing from level `least` on completes. -/
def ExprText (least : Nat) (t : Text) (e : Tree) : Prop := ∃ ts, Spells t ts ∧ IsExpr least ts e

variable {t : Text}

lemma operandText_of_spells {tok : Token}
    (h : Spells t (tok :: ts)) (htok : ∀ p, tok ≠ .punct p) (he : IsOperand (tok :: ts) e) :
    OperandText t e :=
  ⟨⟨_, h, he⟩, (h.first htok).1, (h.first htok).2⟩

lemma operandText_word {w : Text} (hw : IsWord w) (h : atom? (.word w) = some e) : OperandText w e :=
  operandText_of_spells (spells_word hw) (by simp) (isOperand_atom h)

lemma operandText_number (h : IsNumeral t) : OperandText t (.number t) :=
  operandText_of_spells (spells_number h) (by simp) (isOperand_atom rfl)

lemma OperandText.exprText (h : OperandText t e) (least : Nat) : ExprText least t e := by
  obtain ⟨ts, ht, he⟩ := h.tokens
  exact ⟨ts, ht, he.isExpr least⟩

lemma ExprText.of_le (hle : least' ≤ least) (h : ExprText least t e) : ExprText least' t e := by
  obtain ⟨ts, ht, he⟩ := h
  exact ⟨ts, ht, he.of_le hle⟩

lemma ExprText.group (h : ExprText 0 t e) : OperandText ("(" ++ t ++ ")") e := by
  obtain ⟨ts, ht, he⟩ := h
  refine ⟨⟨_, spells_bracketed ht (.inl rfl) (.inl rfl),
    he.group⟩, by simp [show ofString "(" ≠ [] by decide], fun b hb => ?_⟩
  obtain rfl : '(' = b := Option.some.inj hb
  decide

lemma OperandText.unary (h : OperandText t e) (hop : op ∈ unaryOperators) : ExprText 12 (op ++ t) (.unary op e) := by
  obtain ⟨ts, ht, he⟩ := h.tokens
  have hpunct : ∀ op ∈ unaryOperators, op ∈ punctuators := by decide
  exact ⟨_, spells_punct_append (hpunct op hop) ht h.ne_nil h.first, he.unary hop⟩

lemma OperandText.binary {l r : Text} {el er : Tree} (hl : OperandText l el) (hr : OperandText r er)
    {level : Nat} (hop : levels.lookup op = some level) :
    ExprText level (l ++ " " ++ op ++ " " ++ r) (.binary el op er) := by
  obtain ⟨ls, hls, hel⟩ := hl.tokens
  obtain ⟨rs, hrs, her⟩ := hr.tokens
  have hpunct : ∀ q ∈ levels, q.1 ∈ punctuators := by decide
  have hmem : (op, level) ∈ levels := by
    obtain ⟨before, after, heq, -⟩ := lookup_eq_some_iff.mp hop
    simp [heq]
  exact ⟨_, hls.between (hpunct _ hmem) hrs, hel.binary her hop⟩

lemma ExprText.conditional {c t e : Text} {ec et ee : Tree} (hc : ExprText 1 c ec)
    (ht : OperandText t et) (he : OperandText e ee) :
    ExprText 0 (c ++ " ? " ++ t ++ " : " ++ e) (.conditional ec et ee) := by
  obtain ⟨cs, hcs, hec⟩ := hc
  obtain ⟨ts, hts, het⟩ := ht.tokens
  obtain ⟨es, hes, hee⟩ := he.tokens
  have hspells := hcs.between (p := "?") (by decide) (hts.between (p := ":") (by decide) hes)
  refine ⟨_, ?_, hec.conditional het hee⟩
  have hquestion : ofString " ? " = ofString " " ++ "?" ++ " " := rfl
  have hcolon : ofString " : " = ofString " " ++ ":" ++ " " := rfl
  rw [hquestion, hcolon]
  simpa only [append_assoc] using hspells

lemma ExprText.read_eq (h : ExprText 0 t e) : read t = some e := by
  obtain ⟨ts, ht, he⟩ := h
  simp [read, ht.lex_eq, he.parse_eq]

end Transpiler.Script.Js
