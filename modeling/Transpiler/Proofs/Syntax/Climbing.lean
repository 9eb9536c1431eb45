import Transpiler.Proofs.Syntax.Readings
import Transpiler.Proofs.Syntax.Wording

/-!
# Lines that are formulas

The parser shares its operands with calls, blocks and signs before operands, and it is bounded by the number of
tokens it has before it. On the tokens of a formula none of this shows: it does just what reading by binding power
does, so it gives the ordered tree. The main result is `Formula.parseLine_text`.
-/

namespace Transpiler

open List Grammar Nat Lexer Token
open Formula (Word Operator Atom Stops Reads)

/-! ## Trees as nodes -/

namespace Formula

/-- The name of an operator in a tree: the words `and` and `or` are other spellings of signs. -/
def Operator.sign (op : Operator) : Text :=
  if op.text = "and" then "&&" else if op.text = "or" then "||" else op.text

/-- Whether a node is the tree of a formula, wherever it stands in the source. Parentheses leave no node. -/
def Shows : Formula → Node → Prop
  | .atom (.integer n _), node => ∃ span, node = .integer span (Int64.ofNat n)
  | .atom (.name word _), node =>
    ∃ span, node = .var span word (if startsWith isCapital word then .constant else .local)
  | .group inner, node => inner.Shows node
  | .joined left op right, node =>
    ∃ span l r, node = .call span l op.sign [r] .absent ∧ left.Shows l ∧ right.Shows r

lemma Operator.calledName_text (op : Operator) : calledName op.text = op.sign := by
  simp only [calledName, sign, beq_iff_eq]

lemma Atom.kind_cases (a : Atom) : a.kind = .int ∨ a.kind = .const ∨ a.kind = .ident := by
  cases a with
  | integer => exact .inl rfl
  | name word h =>
    rw [kind, nameKind, h.2, if_neg Bool.false_ne_true]
    split_ifs
    · exact .inr (.inl rfl)
    · exact .inr (.inr rfl)

lemma Operator.kind_cases (op : Operator) :
    (op.kind = .keyword ∧ (op.text = "and" ∨ op.text = "or")) ∨ op.kind = .op := by
  rw [kind]
  split_ifs with hword
  · exact .inl ⟨rfl, hword⟩
  · exact .inr rfl

/-- The binding power of the operator that comes first. -/
def nextPower? : List Word → Option Nat
  | .operator op :: _ => some op.power
  | _ => none

lemma Word.kind_ne_eof (w : Word) : w.kind ≠ .eof := by
  cases w with
  | opening | closing => exact nofun
  | atom a => obtain hkind | hkind | hkind := a.kind_cases <;> simp [Word.kind, hkind]
  | operator op => obtain ⟨hkind, -⟩ | hkind := op.kind_cases <;> simp [Word.kind, hkind]

end Formula

/-! ## Tokens before a cursor -/

lemma Formula.Spelled.length_lt {ws : List Word} {tokens : List Token} (h : Formula.Spelled ws tokens) :
    ws.length < tokens.length := by
  induction ws generalizing tokens with
  | nil =>
    cases tokens with
    | nil => exact h.elim
    | cons t ts => exact zero_lt_succ _
  | cons w ws ih =>
    cases tokens with
    | nil => exact h.elim
    | cons t ts => exact succ_lt_succ (ih h.2.2)

namespace Cursor

variable {c : Cursor} {w : Word} {ws : List Word}

lemma Faces.isEof_eq (h : c.Faces (w :: ws)) : c.current.isEof = false := by
  rw [isEof, h.1.1]
  exact beq_eq_false_iff_ne.2 w.kind_ne_eof

lemma Faces.next (h : c.Faces (w :: ws)) : c.next.Faces ws := by
  have hend := h.isEof_eq
  obtain ⟨current, ahead, lastEnd⟩ := c
  simp only at hend
  cases ahead with
  | nil => cases ws <;> exact h.2.elim
  | cons t rest =>
    simp only [Cursor.next, hend]
    cases ws with
    | nil => exact h.2
    | cons v ws => exact ⟨h.2.1, h.2.2.2⟩

/-- The token after the current one stands behind a blank, or it ends the line. -/
lemma Faces.second (h : c.Faces (w :: ws)) : c.second.spaced ∨ c.second.isEof := by
  obtain ⟨current, ahead, lastEnd⟩ := c
  cases ahead with
  | nil => cases ws <;> exact h.2.elim
  | cons t rest =>
    cases ws with
    | nil => exact .inr (beq_iff_eq.2 h.2)
    | cons v ws => exact .inl h.2.2.1

lemma Faces.length_le (h : c.Faces ws) : ws.length ≤ c.ahead.length := by
  cases ws with
  | nil => exact zero_le _
  | cons w ws => exact h.2.length_lt

/-- There is room for two levels at each word. -/
lemma Faces.le_depth (h : c.Faces ws) : 2 * ws.length + 2 ≤ c.depth := by
  have hlength := h.length_le
  have hahead : ∀ ts : List Token, 2 * ts.length ≤ ts.foldr (fun t n => t.depth + n) 0 := by
    intro ts
    induction ts with
    | nil => exact zero_le _
    | cons t ts ih =>
      have ht : 2 ≤ t.depth := le_add_right _ _
      rw [length_cons, foldr_cons]
      omega
  have := hahead c.ahead
  rw [Cursor.depth]
  omega

end Cursor

/-- The words before a state of reading, with the local variables it knows. -/
structure Parsing.Faces (locals : List Text) (ws : List Word) (s : Parsing) : Prop where
  words : s.cursor.Faces ws
  locals_eq : s.locals = locals
  loopHead_eq : s.loopHead = false

/-! ## Tokens behind an operand -/

namespace Parsing.Faces

variable {locals : List Text} {ws : List Word} {s : Parsing} {least : Nat}

/-- The token behind an operand is the end, a closing parenthesis or an infix operator. -/
lemma current_cases (h : s.Faces locals ws) (hws : Stops least ws) : s.cursor.current.kind = .eof ∨
    (s.cursor.current.kind = .op ∧ s.cursor.current.text = ")") ∨
    ∃ op : Operator, s.cursor.current.kind = op.kind ∧ s.cursor.current.text = op.text := by
  have hfaces := h.words
  match ws, hws with
  | [], _ => exact .inl hfaces
  | .closing :: _, _ => exact .inr (.inl hfaces.1)
  | .operator op :: _, _ => exact .inr (.inr ⟨op, hfaces.1⟩)

lemma isOp_eq_false (h : s.Faces locals ws) (hws : Stops least ws) (sign : Text)
    (hsign : bindingPower? sign = none) (hclosing : sign ≠ ")") : s.cursor.current.isOp sign = false := by
  refine Bool.eq_false_iff.2 fun hop => ?_
  simp only [isOp, Bool.and_eq_true, beq_iff_eq] at hop
  obtain hend | ⟨-, htext⟩ | ⟨op, -, htext⟩ := h.current_cases hws
  · simp [hend] at hop
  · exact hclosing (hop.2.symm.trans htext)
  · simp [← hop.2, htext, op.power_eq] at hsign

lemma isKeyword_eq_false (h : s.Faces locals ws) (hws : Stops least ws) (word : Text)
    (hword : bindingPower? word = none) : s.cursor.current.isKeyword word = false := by
  refine Bool.eq_false_iff.2 fun hkeyword => ?_
  simp only [isKeyword, Bool.and_eq_true, beq_iff_eq] at hkeyword
  obtain hend | ⟨hkind, -⟩ | ⟨op, -, htext⟩ := h.current_cases hws
  · simp [hend] at hkeyword
  · simp [hkind] at hkeyword
  · simp [← hkeyword.2, htext, op.power_eq] at hword

lemma isModifier_eq_false (h : s.Faces locals ws) (hws : Stops least ws) : s.cursor.current.isModifier = false := by
  have hwords : ∀ t : Token, t.isModifier =
      (t.isKeyword "if" || t.isKeyword "unless" || t.isKeyword "while" || t.isKeyword "until") := by
    intro t
    simp only [isModifier, isKeyword, Bool.and_or_distrib_left]
  rw [hwords, h.isKeyword_eq_false hws "if" rfl, h.isKeyword_eq_false hws "unless" rfl,
    h.isKeyword_eq_false hws "while" rfl, h.isKeyword_eq_false hws "until" rfl]
  rfl

/-- The binding power of the token behind an operand. -/
lemma infixPower?_eq (h : s.Faces locals ws) (hws : Stops least ws) :
    infixPower? s.cursor.current = Formula.nextPower? ws := by
  have hfaces := h.words
  match ws, hws with
  | [], _ =>
    have hend : s.cursor.current.kind = .eof := hfaces
    simp [infixPower?, isKeyword, hend, Formula.nextPower?]
  | .closing :: _, _ =>
    have htext : s.cursor.current.text = ")" := hfaces.1.2
    have hpower : bindingPower? ")" = none := rfl
    rw [infixPower?, htext, hpower, ite_self]
    rfl
  | .operator op :: _, _ =>
    have hkind : s.cursor.current.kind = op.kind := hfaces.1.1
    have htext : s.cursor.current.text = op.text := hfaces.1.2
    rw [infixPower?, if_pos, htext, op.power_eq, Formula.nextPower?]
    obtain ⟨hop, hword | hword⟩ | hop := op.kind_cases <;> simp_all [isKeyword]

end Parsing.Faces

/-! ## Readings that succeed -/

namespace Parse

variable {α β : Type} {locals : List Text} {ws : List Word} {w : Word} {s : Parsing} {ok : α → Parsing → Prop}

/-- A reading succeeds, with a result and a state as `ok` says. -/
abbrev Succeeds (p : Parse α) (s : Parsing) (ok : α → Parsing → Prop) : Prop := After p s ok fun _ _ => False

/-- A reading that gives a node as `shown` says from the words `ws` and leaves the words `k`. -/
def Makes (p : Parse Node) (locals : List Text) (ws : List Word) (shown : Node → Prop) (k : List Word) : Prop :=
  ∀ s, s.Faces locals ws → p.Succeeds s fun n s' => shown n ∧ s'.Faces locals k

/-- A reading that gives the tree `t` from the words `ws` and leaves the words `k`. -/
def Yields (p : Parse Node) (locals : List Text) (ws : List Word) (t : Formula) (k : List Word) : Prop :=
  p.Makes locals ws t.Shows k

/-- A reading that gives `a` and takes nothing. -/
abbrev Stays (p : Parse α) (s : Parsing) (a : α) : Prop := p.Succeeds s fun b s' => b = a ∧ s' = s

lemma Stays.bind {p : Parse β} {f : β → Parse α} {b : β} (h : p.Stays s b) (hf : (f b).Succeeds s ok) :
    (p >>= f).Succeeds s ok := by
  refine .bind h ?_
  rintro _ _ ⟨rfl, rfl⟩
  exact hf

lemma stays_takeOp {op : Text} (h : s.cursor.current.isOp op = false) : (takeOp op).Stays s false := by
  refine atOp_bind ?_
  rw [h]
  exact ⟨rfl, rfl⟩

lemma stays_takeKeyword {word : Text} (h : s.cursor.current.isKeyword word = false) :
    (takeKeyword word).Stays s false := by
  refine atKeyword_bind ?_
  rw [h]
  exact ⟨rfl, rfl⟩

lemma stays_expectEnd (h : s.Faces locals []) : expectEnd.Stays s () := by
  have hend : s.cursor.current.isEof := beq_iff_eq.2 h.words
  refine atEnd_bind ?_
  rw [hend]
  exact ⟨rfl, rfl⟩

lemma take_bind {f : Token → Parse α} (h : s.Faces locals (w :: ws))
    (hf : ∀ s', s'.Faces locals ws → (f s.cursor.current).Succeeds s' ok) : (advance >>= f).Succeeds s ok :=
  hf { s with cursor := s.cursor.next } ⟨h.words.next, h.locals_eq, h.loopHead_eq⟩

lemma succeeds_expectOp {op : Text} (h : s.Faces locals (w :: ws)) (hop : s.cursor.current.isOp op) :
    (expectOp op).Succeeds s fun _ s' => s'.Faces locals ws := by
  have htake : (takeOp op).Succeeds s fun taken s' => taken ∧ s'.Faces locals ws := by
    refine atOp_bind ?_
    rw [hop]
    exact take_bind h fun s' hs' => ⟨rfl, hs'⟩
  refine htake.bind ?_
  rintro _ s' ⟨rfl, hs'⟩
  exact hs'

end Parse

namespace Grammar

open Parse

variable {locals : List Text} {ws k : List Word} {s : Parsing} {least : Nat} {r : Rules}

/-- What follows an operand is not taken for an argument. -/
lemma stays_startsCommandArg (h : s.Faces locals ws) (hws : Stops least ws) : startsCommandArg.Stays s false := by
  refine peek_bind (.ite ⟨rfl, rfl⟩ ?_)
  have hfaces := h.words
  match ws, hws with
  | [], _ =>
    have hend : s.cursor.current.kind = .eof := hfaces
    rw [hend]
    exact ⟨rfl, rfl⟩
  | .closing :: _, _ =>
    have hkind : s.cursor.current.kind = .op := hfaces.1.1
    have htext : s.cursor.current.text = ")" := hfaces.1.2
    rw [hkind, htext]
    exact ⟨rfl, rfl⟩
  | .operator op :: _, _ =>
    have hkind : s.cursor.current.kind = op.kind := hfaces.1.1
    have htext : s.cursor.current.text = op.text := hfaces.1.2
    have hne : ∀ sign, bindingPower? sign = none → (op.text == sign) = false := by
      intro sign hsign
      refine beq_eq_false_iff_ne.2 fun heq => ?_
      simp [← heq, op.power_eq] at hsign
    rw [hkind, htext]
    obtain ⟨hop, hword | hword⟩ | hop := op.kind_cases
    · rw [hop, hword]
      exact ⟨rfl, rfl⟩
    · rw [hop, hword]
      exact ⟨rfl, rfl⟩
    · rw [hop]
      refine .dite (fun hbracket => ?_) fun _ => .ite ?_ ⟨rfl, rfl⟩
      · simp [hne "[" rfl, hne "(" rfl, hne "!" rfl] at hbracket
      · -- a minus sign with a blank behind it is no sign of an argument
        refine ⟨?_, rfl⟩
        obtain hsecond | hsecond := hfaces.second <;> simp [hsecond]

lemma plainNumeral_ofNat (n : Nat) : plainNumeral (Text.ofNat n) = Text.ofNat n := by
  refine filter_eq_self.2 fun b hb => ?_
  have hdigit := Text.isDigit_of_mem_ofNat hb
  refine bne_iff_ne.2 fun heq => ?_
  rw [heq] at hdigit
  cases hdigit

/-- A name in front of what can follow an operand is a local variable. -/
lemma stays_identifier {t : Token} (h : s.Faces locals ws) (hws : Stops least ws) :
    (identifier r t).Stays s (.var ⟨t.pos, t.stop⟩ t.text .local) := by
  unfold identifier
  refine peek_bind (knows_bind ?_)
  extract_lets finish
  -- there are no arguments in parentheses, none without them, and no block
  rw [h.isOp_eq_false hws "(" rfl (by decide)]
  refine (stays_startsCommandArg h hws).bind ?_
  rw [Bool.and_false]
  refine .get_bind ?_
  rw [h.isKeyword_eq_false hws "do" rfl, h.isOp_eq_false hws "\x7b" rfl (by decide)]
  exact ⟨rfl, rfl⟩

lemma ofName_of_isCapital {word : Text} (h : startsWith isCapital word) : Scope.ofName word = .constant := by
  cases word with
  | nil => cases h
  | cons b rest =>
    have hcapital : isCapital b := h
    have hne : ∀ c, isCapital c = false → (b == c) = false := by
      intro c hc
      refine beq_eq_false_iff_ne.2 fun heq => ?_
      rw [heq, hc] at hcapital
      cases hcapital
    rw [Scope.ofName, hne '@' rfl, hne '$' rfl]
    exact if_pos hcapital

lemma yields_operand_atom (a : Atom) (hws : Stops least ws) :
    (operand r).Yields locals (.atom a :: ws) (.atom a) ws := by
  intro s h
  refine take_bind h fun s₁ h₁ => ?_
  cases a with
  | integer n hn =>
    have hkind : s.cursor.current.kind = .int := h.words.1.1
    have htext : s.cursor.current.text = Text.ofNat n := h.words.1.2
    have hread : Numeral.readInteger (plainNumeral s.cursor.current.text) = .ok (Int64.ofNat n) := by
      rw [htext, plainNumeral_ofNat, Numeral.readInteger_ofNat hn]
    rw [hkind]
    simp only [hread]
    exact ⟨⟨_, rfl⟩, h₁⟩
  | name word hword =>
    have hkind : s.cursor.current.kind = nameKind word := h.words.1.1
    have htext : s.cursor.current.text = word := h.words.1.2
    rw [nameKind, hword.2, if_neg Bool.false_ne_true] at hkind
    by_cases hcapital : startsWith isCapital word
    · rw [if_pos hcapital] at hkind
      rw [hkind, htext]
      exact ⟨⟨_, by rw [if_pos hcapital, ofName_of_isCapital hcapital]⟩, h₁⟩
    · rw [if_neg hcapital] at hkind
      rw [hkind]
      refine (stays_identifier h₁ hws).mono ?_ fun _ _ => id
      rintro _ _ ⟨rfl, rfl⟩
      exact ⟨⟨_, by rw [if_neg hcapital, htext]⟩, h₁⟩

lemma yields_operand_group {inner : Formula} (hinner : r.statement.Yields locals ws inner (.closing :: k))
    (hopen : ∀ s, Parsing.Faces locals ws s → s.cursor.current.isOp ")" = false) :
    (operand r).Yields locals (.opening :: ws) (.group inner) k := by
  intro s h
  have hkind : s.cursor.current.kind = .op := h.words.1.1
  have htext : s.cursor.current.text = "(" := h.words.1.2
  refine take_bind h fun s₁ h₁ => ?_
  rw [hkind]
  unfold bracketed
  rw [htext, if_neg (by decide), if_neg (by decide), if_pos (by decide)]
  refine (stays_takeOp (hopen s₁ h₁)).bind ((hinner s₁ h₁).bind fun node s₂ ⟨hnode, h₂⟩ => ?_)
  have hclosing : s₂.cursor.current.isOp ")" = true := by
    rw [isOp, h₂.words.1.1, h₂.words.1.2]
    rfl
  exact (succeeds_expectOp h₂ hclosing).bind fun _ s₃ h₃ => ⟨hnode, h₃⟩

/-- What follows an operand is not applied to it. -/
lemma stays_postfixes (h : s.Faces locals ws) (hws : Stops least ws) (start n : Nat) (left : Node) :
    (postfixes r start (n + 1) left).Stays s left := by
  unfold postfixes
  refine peek_bind ?_
  rw [h.isOp_eq_false hws "." rfl (by decide), h.isOp_eq_false hws "&." rfl (by decide),
    h.isOp_eq_false hws "::" rfl (by decide), h.isOp_eq_false hws "[" rfl (by decide)]
  exact ⟨rfl, rfl⟩

/-- An expression is an operand and what can be taken in behind it. -/
lemma makes_expr {first shown : Node → Prop} {ws' : List Word} (hfirst : (operand r).Makes locals ws first ws')
    (hws' : Stops least ws') {power : Nat} (hmore : ∀ start n node, ws'.length < n → first node →
      (infixes r start power n node).Makes locals ws' shown k) :
    (expr r power).Makes locals ws shown k := by
  intro s h
  refine peek_bind ((hfirst s h).bind fun node s₁ ⟨hnode, h₁⟩ => budget_bind ?_)
  refine (stays_postfixes h₁ hws' _ _ node).bind (budget_bind ?_)
  exact hmore _ _ _ (lt_succ_of_le h₁.words.length_le) hnode _ h₁

lemma makes_infixes_stop {shown : Node → Prop} {node : Node} (hws : Stops least ws) (hnode : shown node)
    (start n : Nat) : (infixes r start least (n + 1) node).Makes locals ws shown ws := by
  intro s hs
  unfold infixes
  refine peek_bind ?_
  rw [hs.infixPower?_eq hws]
  match ws, hws with
  | [], _ | .closing :: _, _ => exact ⟨hnode, hs⟩
  | .operator op :: _, hle => exact .dite (fun _ => ⟨hnode, hs⟩) fun hlt => absurd hle hlt

/-- An operator that binds tightly enough is taken in with its right operand. -/
lemma yields_infixes_step {op : Operator} {left right t : Formula} {node : Node} {ws' : List Word} {start n : Nat}
    (hlt : least < op.power) (hnode : left.Shows node) (hright : (r.expr op.rightPower).Yields locals ws right ws')
    (hmore : ∀ node, (Formula.joined left op right).Shows node → (infixes r start least n node).Yields locals ws' t k) :
    (infixes r start least (n + 1) node).Yields locals (.operator op :: ws) t k := by
  intro s hs
  have htext : s.cursor.current.text = op.text := hs.words.1.2
  unfold infixes
  refine peek_bind ?_
  rw [hs.infixPower?_eq (le_refl op.power), htext]
  refine .dite (fun hle => absurd hle (not_le.2 hlt)) fun _ => take_bind hs fun s₁ h₁ => ?_
  refine (hright s₁ h₁).bind fun rnode s₂ ⟨hrnode, h₂⟩ => spanFrom_bind (hmore _ ?_ s₂ h₂)
  exact ⟨_, _, _, by rw [op.calledName_text], hnode, hrnode⟩

/-- An expression up to its end or a closing parenthesis is a statement. -/
lemma makes_statement {shown : Node → Prop} (hexpr : (r.expr loosest).Makes locals ws shown k)
    (hk : Stops loosest k) (hstart : ∀ s, Parsing.Faces locals ws s → s.cursor.current.kind ≠ .keyword) :
    (statement r).Makes locals ws shown k := by
  have hsimple : (simpleStatement r).Makes locals ws shown k := by
    intro s h
    have hreturn : s.cursor.current.isKeyword "return" = false := by
      rw [isKeyword, beq_eq_false_iff_ne.2 (hstart s h), Bool.false_and]
    exact peek_bind ((stays_takeKeyword hreturn).bind (hexpr s h))
  intro s h
  unfold statement
  refine peek_bind ?_
  extract_lets start finish
  refine (hsimple s h).bind fun target s₁ ⟨htarget, h₁⟩ => peek_bind ?_
  have hcompound : (if s₁.cursor.current.kind == .op then compound? s₁.cursor.current.text else none) = none := by
    have hfaces := h₁.words
    match k, hk with
    | [], _ =>
      have hend : s₁.cursor.current.kind = .eof := hfaces
      rw [hend]
      rfl
    | .closing :: _, _ =>
      have htext : s₁.cursor.current.text = ")" := hfaces.1.2
      have hnone : compound? ")" = none := rfl
      rw [htext, hnone, ite_self]
    | .operator op :: _, hk => exact absurd hk (not_le.2 op.power_pos)
  -- neither an assignment nor a condition follows
  have hfinish : (finish target).Succeeds s₁ fun n s' => shown n ∧ s'.Faces locals k := by
    refine budget_bind ?_
    unfold modifiers
    refine peek_bind ?_
    rw [h₁.isModifier_eq_false hk]
    exact ⟨htarget, h₁⟩
  rw [h₁.isOp_eq_false hk "=" rfl (by decide), hcompound]
  exact hfinish

/-- An expression up to the end is a line of its own. -/
lemma makes_line {shown : Node → Prop} (hexpr : (r.expr loosest).Makes locals ws shown [])
    (hstart : ∀ s, Parsing.Faces locals ws s → s.cursor.current.kind ≠ .keyword) :
    (line r).Makes locals ws shown [] := by
  have hstatement := makes_statement hexpr trivial hstart
  intro s hs
  unfold line
  refine peek_bind ?_
  extract_lets whole
  have hwhole : whole.Succeeds s fun n s' => shown n ∧ s'.Faces locals [] :=
    (hstatement s hs).bind fun n s₁ ⟨hn, h₁⟩ => (stays_expectEnd h₁).bind ⟨hn, h₁⟩
  rw [if_neg (by simpa using hstart s hs)]
  exact hwhole

end Grammar

/-- A line whose tokens are read as a node is that node. -/
lemma exists_parseLine_of_makes {locals : List Text} {offset : Nat} {text : Text} {tokens : List Token}
    {ws : List Word} {shown : Node → Prop} (hlex : lex offset text = .ok tokens)
    (hfaces : (Cursor.ofTokens tokens).Faces ws)
    (hline : (line (Rules.upTo (Cursor.ofTokens tokens).depth)).Makes locals ws shown []) :
    ∃ n, parseLine locals offset text = (.ok n, locals) ∧ shown n := by
  have hrun := hline ⟨.ofTokens tokens, locals, false⟩ ⟨hfaces, rfl, rfl⟩
  simp only [parseLine, hlex, parseTokens]
  rw [Parse.Succeeds, After] at hrun
  split
  · next n s' heq =>
    rw [heq] at hrun
    exact ⟨n, by rw [hrun.2.locals_eq], hrun.1⟩
  · next fault s' heq =>
    rw [heq] at hrun
    exact hrun.elim

/-! ## The parser reads by binding power -/

namespace Formula.Reads

open Grammar Parse

variable {least : Nat} {left : Option Formula} {ws k : List Word} {t : Formula} {locals : List Text}

/-- The first token of a formula neither is a keyword nor closes a parenthesis. -/
lemma current_ne (h : Reads least none ws t k) {s : Parsing} (hs : s.Faces locals ws) :
    s.cursor.current.kind ≠ .keyword ∧ s.cursor.current.isOp ")" = false := by
  obtain ⟨a, rest, rfl⟩ | ⟨rest, rfl⟩ := h.head_cases
  · have hkind : s.cursor.current.kind = a.kind := hs.words.1.1
    rw [isOp, hkind]
    obtain ha | ha | ha := a.kind_cases <;> simp [ha]
  · have hkind : s.cursor.current.kind = .op := hs.words.1.1
    have htext : s.cursor.current.text = "(" := hs.words.1.2
    rw [isOp, hkind, htext]
    exact ⟨nofun, rfl⟩

/-- What the parser does with the words that `Reads` speaks of: as an expression, or behind an operand it has
read already. The rules have two levels left for each word. -/
def Followed (locals : List Text) (least : Nat) (left : Option Formula) (ws : List Word) (t : Formula)
    (k : List Word) : Prop :=
  ∀ depth, 2 * ws.length ≤ depth →
    match left with
    | none => (expr (.upTo depth) least).Yields locals ws t k
    | some l => ∀ start n node, ws.length < n → l.Shows node →
      (infixes (.upTo depth) start least n node).Yields locals ws t k

/-- The parser follows every reading by binding power. -/
lemma followed (h : Reads least left ws t k) : Followed locals least left ws t k := by
  -- along the reading: every nested reading has fewer words, so the levels and the budget of the loop last
  induction h with
  | @atom least a ws k t h ih =>
    intro depth hdepth
    rw [length_cons] at hdepth
    obtain ⟨power, hstops⟩ := h.stops
    exact makes_expr (yields_operand_atom a hstops) hstops (ih depth (by omega))
  | @group least inner t ws ws' k hinner h ihinner ih =>
    intro depth hdepth
    have hlength := hinner.length_le
    simp only [length_cons] at hdepth hlength
    obtain ⟨power, hstops⟩ := h.stops
    obtain ⟨depth, rfl⟩ := Nat.exists_eq_add_of_le' (show 2 ≤ depth by omega)
    -- one level for the statement in parentheses, one for its expression
    have hexpr : ((Rules.upTo (depth + 1)).expr loosest).Yields locals ws inner (.closing :: ws') :=
      ihinner depth (by omega)
    have hstatement : (Rules.upTo (depth + 2)).statement.Yields locals ws inner (.closing :: ws') :=
      makes_statement hexpr trivial fun s hs => (hinner.current_ne hs).1
    refine makes_expr (yields_operand_group hstatement fun s hs => (hinner.current_ne hs).2) hstops ?_
    exact ih (depth + 2) (by omega)
  | @stop least left ws hstops =>
    intro depth hdepth start n node hn hnode
    obtain ⟨n, rfl⟩ := exists_eq_add_one_of_ne_zero (ne_zero_of_lt hn)
    exact makes_infixes_stop hstops hnode start n
  | @step least op left right t ws ws' k hlt hright h ihright ih =>
    intro depth hdepth start n node hn hnode
    have hlength := hright.length_le
    rw [length_cons] at hdepth hn
    obtain ⟨n, rfl⟩ := exists_eq_add_one_of_ne_zero (ne_zero_of_lt hn)
    obtain ⟨depth, rfl⟩ := Nat.exists_eq_add_of_le' (show 1 ≤ depth by omega)
    refine yields_infixes_step hlt hnode (ihright depth (by omega)) fun node' hnode' => ?_
    exact ih (depth + 1) (by omega) start n node' (by omega) hnode'

lemma yields_line (h : Reads loosest none ws t []) {depth : Nat} (hdepth : 2 * ws.length + 1 ≤ depth) :
    (line (.upTo depth)).Yields locals ws t [] := by
  obtain ⟨depth, rfl⟩ := Nat.exists_eq_add_of_le' (show 1 ≤ depth by omega)
  have hexpr : ((Rules.upTo (depth + 1)).expr loosest).Yields locals ws t [] := h.followed depth (by omega)
  exact makes_line hexpr fun s hs => (h.current_ne hs).1

end Formula.Reads

/-- The text of a formula is a line whose tree is ordered by binding power, and no other ordered tree has its
words. Local variables make no difference and stay as they are. -/
theorem Formula.parseLine_text (e : Formula) (locals : List Text) (offset : Nat) :
    ∃ t : Formula, (t.words = e.words ∧ t.Ordered ∧ ∀ t' : Formula, t'.words = e.words → t'.Ordered → t' = t) ∧
      ∃ n, parseLine locals offset e.text = (.ok n, locals) ∧ t.Shows n := by
  obtain ⟨t, ⟨hwords, hordered⟩, hunique⟩ := e.existsUnique_ordered
  refine ⟨t, ⟨hwords, hordered, fun t' hwords' ht' => hunique t' ⟨hwords', ht'⟩⟩, ?_⟩
  obtain ⟨tokens, hlex, hfaces⟩ := e.lex_text offset
  have hreads := hordered.reads
  rw [hwords] at hreads
  have hdepth := hfaces.le_depth
  exact exists_parseLine_of_makes hlex hfaces (hreads.yields_line (by omega))

end Transpiler
