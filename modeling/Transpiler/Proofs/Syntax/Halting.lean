import Transpiler.Proofs.Syntax.Settling
import Transpiler.Proofs.Syntax.Unparsed

/-!
# Every line is read to an end

Rules are given a depth and loops a number of rounds, but neither bound plays a part: each loop ends or takes a token
in every round (`Grammar.Loops`), and a rule asks the rules below it only behind its first token, or at the start of
code inside it, which is shorter than the text around it (`Cursor.Asks`). This relation is well-founded, as there is
less room for nesting each time. With the depth that a line has room for, or with any more, its reading comes to one
and the same end (`halts_line_upTo`).
-/

namespace Transpiler

open Parse List Grammar Nat Token

/-- The rules come to an end wherever they are asked on a line, and what they read is at least a token. -/
structure Rules.Steady {ι : Type} (line : List Token) (r : ι → Rules) : Prop where
  takes_expr : ∀ least s, s.On line → Takes (fun i => (r i).expr least) s
  takes_statement : ∀ s, s.On line → Takes (fun i => (r i).statement) s

namespace Rules.Steady

variable {ι : Type} {line : List Token} {r : ι → Rules} (h : Rules.Steady line r)

include h

lemma expr (least : Nat) : Parse.Steady line fun i => (r i).expr least := fun s hs => (h.takes_expr least s hs).halts

lemma statement : Parse.Steady line fun i => (r i).statement := fun s hs => (h.takes_statement s hs).halts

end Rules.Steady

/-! ## Tokens of a text -/

namespace Lexer

/-- How deep constructs can nest on account of the code in a string. -/
def codeDepth (parts : List StringPart) : Nat :=
  (parts.filter (·.isCode)).foldr (fun p n => 4 * p.text.length + 4 + n) 0

lemma codeDepth_cons (p : StringPart) (parts : List StringPart) :
    codeDepth (p :: parts) = (if p.isCode then 4 * p.text.length + 4 else 0) + codeDepth parts := by
  rw [codeDepth, filter_cons]
  split
  · rfl
  · rw [zero_add, codeDepth]

lemma codeDepth_append (parts parts' : List StringPart) :
    codeDepth (parts ++ parts') = codeDepth parts + codeDepth parts' := by
  induction parts with
  | nil => simp [codeDepth]
  | cons p parts ih => rw [cons_append, codeDepth_cons, codeDepth_cons, ih, add_assoc]

lemma le_codeDepth {p : StringPart} {parts : List StringPart} (h : p ∈ parts) (hp : p.isCode) :
    4 * p.text.length + 4 ≤ codeDepth parts := by
  obtain ⟨front, back, rfl⟩ := append_of_mem h
  rw [codeDepth_append, codeDepth_cons, if_pos hp]
  omega

lemma codeDepth_literalPart (text : Text) (pos : Nat) : codeDepth (literalPart text pos) = 0 := by
  rw [literalPart]
  split <;> rfl

variable {offset : Nat} {s rest : Text} {c : UInt8}

/-- The code in a string leaves room for the quotes and braces around it. -/
lemma codeDepth_quotedParts {quote : UInt8} {pos start stop : Nat} {literal : Text} {parts all : List StringPart}
    (h : quotedParts quote pos literal start parts s = .ok (all, stop)) :
    codeDepth all + 4 * pos + 4 ≤ codeDepth parts + 4 * stop := by
  fun_induction quotedParts quote pos literal start parts s with
  | case1 | case5 => cases h
  | case2 pos literal start parts c rest hquote all' =>
    obtain ⟨rfl, rfl⟩ := Prod.mk.inj (Except.ok.inj h)
    have hall : codeDepth all' = codeDepth parts := by rw [codeDepth_append, codeDepth_literalPart, add_zero]
    split
    · rw [codeDepth_cons]
      simp only [Bool.false_eq_true, if_false, codeDepth, filter_nil, foldr_nil]
      omega
    · omega
  | case3 pos literal start parts c hquote ih | case4 pos literal start parts c hquote d rest hescape ih
  | case7 pos literal start parts c hquote d rest hescape hopen ih =>
    have := ih h
    omega
  | case6 pos literal start parts c hquote d rest hescape hopen n hn ih =>
    have hlength : (rest.take n).length = n := length_take_of_le (codeLength?_split hn).1.le
    have hdepth := ih h
    rw [codeDepth_append, codeDepth_append, codeDepth_literalPart, codeDepth_cons, if_pos rfl, hlength] at hdepth
    simp only [codeDepth, filter_nil, foldr_nil] at hdepth ⊢
    omega

/-! Reading tokens does not fail for want of room. -/

lemma bind_ne_exhausted {α β : Type} {x : Except SyntaxFault α} {f : α → Except SyntaxFault β}
    (hx : x ≠ .error .exhausted) (hf : ∀ a, f a ≠ .error .exhausted) : (x >>= f) ≠ .error .exhausted := by
  cases x with
  | error fault => exact fun h => hx (congrArg _ (Except.error.inj h))
  | ok a => exact hf a

lemma quotedParts_ne_exhausted (quote : UInt8) (pos start : Nat) (literal : Text) (parts : List StringPart) :
    quotedParts quote pos literal start parts s ≠ .error .exhausted := by
  fun_induction quotedParts quote pos literal start parts s <;> simp_all

lemma lexeme_ne_exhausted : lexeme offset c rest ≠ .error .exhausted := by
  have hquoted : ∀ quote pos s, quotedParts quote pos [] pos [] s ≠ .error .exhausted := fun _ _ _ =>
    quotedParts_ne_exhausted _ _ _ _ _
  rw [lexeme]
  split_ifs
  · rw [number]
    dsimp only
    split_ifs <;> simp
  · exact bind_ne_exhausted (hquoted _ _ _) fun _ => by simp
  · simp
  · simp
  · rw [symbol.eq_def]
    split
    · simp
    · split_ifs
      · refine bind_ne_exhausted (hquoted _ _ _) fun answer => ?_
        dsimp only
        split
        · split_ifs <;> simp
        · simp
      · simp
  · simp
  · split <;> simp

end Lexer

open Lexer in
lemma lex_ne_exhausted (offset : Nat) (text : Text) : lex offset text ≠ .error .exhausted := by
  fun_induction lex offset text with
  | case1 | case2 => simp
  | case3 offset text _ _ _ c rest _ _ ih =>
    exact bind_ne_exhausted lexeme_ne_exhausted fun l => bind_ne_exhausted (ih l) fun _ => by simp

lemma ended_lex {offset : Nat} {text : Text} {tokens : List Token} (h : lex offset text = .ok tokens) :
    Token.Ended (Cursor.ofTokens tokens).rest :=
  have hlast := (Lexer.cut_of_lex h).exists_last
  (Cursor.rest_ofTokens hlast).symm ▸ hlast

open Lexer in
/-- A token takes a byte, and the code in it takes bytes of its own. -/
lemma bounds_lex {offset : Nat} {text : Text} {tokens : List Token} (h : lex offset text = .ok tokens) :
    tokens.length ≤ text.length + 1 ∧ tokens.foldr (fun t n => t.depth + n) 0 ≤ 4 * text.length + 2 := by
  have hcut := cut_of_lex h
  clear h
  induction hcut with
  | stop => simp [depth]
  | @token offset gap rest c l more hgap hlexeme hmore ih =>
    have hextra := (inside_lexeme hlexeme).extra_le
    have hdepth : codeDepth l.parts ≤ 4 * l.extra := by
      cases scans_lexeme hlexeme with
      | string hc hparts =>
        have hcode := codeDepth_quotedParts hparts
        simp only [codeDepth, filter_nil, foldr_nil] at hcode ⊢
        omega
      | symbol hc hsymbol =>
        rcases symbol_cases hsymbol with ⟨_, _, _, _, _, _, rfl⟩ | ⟨_, _, _, _, _, rfl⟩ <;> exact zero_le _
      | name =>
        rw [name]
        split_ifs <;> exact zero_le _
      | _ => exact zero_le _
    rw [length_drop] at ih
    rw [length_append, length_cons, length_cons, foldr_cons, depth, ← codeDepth]
    dsimp only
    omega

/-! ## What is asked of the rules -/

/-- Where a reading at `c` asks for constructs inside its own: behind the token there, or at the start of code in it. -/
inductive Cursor.Asks (c : Cursor) : Cursor → Prop
  | behind {c' : Cursor} (h : c'.rest <:+ c.ahead) : Asks c c'
  | code {part : StringPart} {tokens : List Token} (hpart : part ∈ c.current.parts) (hcode : part.isCode)
      (hlex : lex part.pos part.text = .ok tokens) : Asks c (.ofTokens tokens)

/-- The rules come to an end on everything that a reading at `c` asks of them. -/
structure Rules.Answers {ι : Type} (c : Cursor) (r : ι → Rules) : Prop where
  expr : ∀ least s, c.Asks s.cursor → Takes (fun i => (r i).expr least) s
  statement : ∀ s, c.Asks s.cursor → Takes (fun i => (r i).statement) s

lemma Rules.Answers.steady {ι : Type} {c : Cursor} {r : ι → Rules} (h : Rules.Answers c r) : Rules.Steady c.ahead r :=
  ⟨fun least s hs => h.expr least s (.behind hs.suffix), fun s hs => h.statement s (.behind hs.suffix)⟩

namespace Grammar

variable {ι : Type} {line : List Token} {r : ι → Rules} {s : Parsing}

/-! ## Loops -/

lemma steady_startsCommandArg : Steady line fun _ : ι => startsCommandArg := by
  refine .bind steady_peek fun t => .ite (.pure _) ?_
  cases t.kind with
  | op => exact .ite (.pure _) (.ite (.bind (.looks fun _ => ⟨_, rfl⟩) fun _ => .pure _) (.pure _))
  | _ => exact .pure _

lemma rounds_skipSemicolons : Rounds line fun (_ : ι) n (_ : Unit) => skipSemicolons n := fun _ _ hs =>
  .bind (settles_takeOp _ hs) fun _ _ _ htaken => .ite (fun h => .again (b := ()) (htaken h)) fun _ => .stop

lemma rounds_skipStars : Rounds line fun (_ : ι) n (_ : Unit) => skipStars n := by
  intro _ s hs
  refine .peek_bind (.ite (fun h => .advance_bind hs ?_ fun _ h => .again (b := ()) h) fun _ => .stop)
  simp only [Bool.or_eq_true] at h
  exact h.elim (Or.rec isEof_of_isOp isEof_of_isOp) isEof_of_isOp

lemma rounds_blockParams : Rounds line fun _ : ι => blockParams := by
  intro params s hs
  refine .step hs suffix_rfl (steady_atOp _) fun _ s₁ h₁ => .ite (fun _ => .stop) fun _ => ?_
  refine .bind (settles_advance (hs.later h₁)) fun t s₂ h₂ hadvance => .ite (fun _ => ?_) fun hkind => ?_
  · exact .fail hs (h₂.trans h₁) (by simp)
  · have hname : (t.kind == .ident) := by simpa using hkind
    refine .past hs (h₁.past (hadvance.2 (isEof_of_kind hname (by simp)))) (steady_learn _) fun _ s₃ h₃ => ?_
    exact .past hs h₃ (steady_takeOp _) fun _ _ h => .ite (fun _ => .again h) fun _ => .stop

lemma steady_blockHead : Steady line fun _ : ι => blockHead := by
  refine .bind (steady_takeOp _) fun _ => .ite ?_ (.pure _)
  exact rounds_blockParams.bind _ fun _ => .bind (steady_expectOp _) fun _ => .pure _

lemma steady_negated (start : Nat) (operand : Node) : Steady line fun _ : ι => negated start operand := by
  cases operand with
  | integer | float => exact .pure _
  | _ => exact steady_spanned _ _

lemma steady_assignmentTo (target value : Node) (op : Text) (start : Nat) :
    Steady line fun _ : ι => assignmentTo target value op start := by
  refine .bind (steady_spanFrom _) fun span => ?_
  cases target with
  | var => exact .ite (.bind (steady_learn _) fun _ => .pure _) (.pure _)
  | call => exact .ite (.pure _) (.ite (.pure _) (.fail (by simp)))
  | _ => exact .fail (by simp)

lemma isEof_of_infixPower? {t : Token} {power : Nat} (h : infixPower? t = some power) : t.isEof = false := by
  rw [infixPower?] at h
  split_ifs at h with hkind
  simp only [Bool.or_eq_true] at hkind
  rcases hkind with (hop | hand) | hor
  · exact isEof_of_kind hop (by simp)
  · exact isEof_of_isKeyword hand
  · exact isEof_of_isKeyword hor

section Rules

variable (hr : Rules.Steady line r)

include hr

lemma steady_argument (args : Arguments) : Steady line fun i => argument (r i) args := by
  refine .bind steady_peek fun t => .ite ?_ ?_
  · exact .bind steady_advance fun _ => .bind (hr.expr _) fun _ => .bind steady_get fun _ => .pure _
  · refine .bind (hr.expr _) fun _ => .bind (steady_takeOp _) fun _ => .ite ?_ (.pure _)
    exact .bind (hr.expr _) fun _ => .bind steady_get fun _ => .pure _

lemma rounds_commandArgs : Rounds line fun i => commandArgs (r i) := by
  intro args s hs
  refine .step hs suffix_rfl (steady_argument hr args) fun _ s₁ h₁ => ?_
  refine .bind (settles_takeOp _ (hs.later h₁)) fun _ _ _ hcomma => .ite (fun h => ?_) fun _ => .stop
  exact .again (h₁.past (hcomma h))

lemma rounds_listItems (closer : Text) : Rounds line fun i => listItems (r i) closer := by
  intro args s hs
  refine .step hs suffix_rfl (steady_atOp closer) fun _ s₁ h₁ => .ite (fun _ => .stop) fun _ => ?_
  refine .step hs h₁ (steady_argument hr args) fun _ s₂ h₂ => ?_
  refine .bind (settles_takeOp _ (hs.later h₂)) fun _ _ _ hcomma => .ite (fun h => ?_) fun _ => .stop
  exact .again (h₂.past (hcomma h))

lemma steady_list (closer : Text) : Steady line fun i => list (r i) closer :=
  (rounds_listItems hr closer).bind _ fun _ => .bind (steady_expectOp closer) fun _ => .pure _

lemma rounds_inlineBody (stops : List Text) : Rounds line fun i => inlineBody (r i) stops := by
  intro body s hs
  refine rounds_skipSemicolons.turns () hs fun _ s₁ h₁ => .peek_bind (.ite (fun _ => .stop) fun _ => ?_)
  refine .takes hs h₁ hr.takes_statement fun n s₂ h₂ => .past hs h₂ (steady_atOp _) fun _ s₃ h₃ => ?_
  exact .ite (fun _ => .again h₃) fun _ => .stop

lemma steady_block : Steady line fun i => block (r i) := by
  refine .bind steady_peek fun t => .bind steady_get fun _ => .ite ?_ (.ite ?_ (.pure _))
  · exact .bind steady_advance fun _ => .bind steady_blockHead fun _ => steady_spanned _ _
  · refine .bind steady_advance fun _ => .bind steady_blockHead fun _ => (rounds_inlineBody hr []).bind _ fun _ => ?_
    exact .bind (steady_expectOp _) fun _ => steady_spanned _ _

lemma steady_identifier (t : Token) : Steady line fun i => identifier (r i) t := by
  refine .bind steady_peek fun next => .bind (.looks fun _ => ⟨_, rfl⟩) fun known => .ite ?_ ?_
  on_goal 1 => refine .bind steady_advance fun _ => .bind (steady_list hr _) fun _ => ?_
  on_goal 2 =>
    refine .bind steady_startsCommandArg fun _ => .ite ((rounds_commandArgs hr).bind _ fun _ => ?_) ?_
    on_goal 2 => refine .bind steady_get fun _ => .ite ?_ (.pure _)
  -- a block can follow in each case
  all_goals exact .bind (steady_block hr) fun _ => steady_spanned _ _

lemma rounds_hashPairs : Rounds line fun i => hashPairs (r i) := by
  intro pairs s hs
  refine .step hs suffix_rfl (steady_atOp _) fun _ s₁ h₁ => .ite (fun _ => .stop) fun _ => .peek_bind ?_
  refine .ite (fun _ => .step hs h₁ steady_advance fun _ _ h => ?_) fun _ =>
    .step hs h₁ (hr.expr _) fun _ _ h₂ => .step hs h₂ (steady_expectOp _) fun _ _ h => ?_
  -- the value is at least one token, whatever the key is
  all_goals
    refine .takes hs h (hr.takes_expr _) fun _ _ h => .past hs h (steady_takeOp _) fun _ _ h => ?_
    exact .ite (fun _ => .again h) fun _ => .stop

lemma steady_hash (start : Nat) : Steady line fun i => hash (r i) start :=
  (rounds_hashPairs hr).bind _ fun _ => .bind (steady_expectOp _) fun _ => steady_spanned _ _

lemma steady_keywordOperand (t : Token) : Steady line fun i => keywordOperand (r i) t := by
  refine .ite (.pure _) (.ite (.pure _) (.ite (.pure _) (.ite ?_ (.throw (by simp)))))
  exact .bind (hr.expr _) fun _ => steady_spanned _ _

lemma steady_bracketed (t : Token) : Steady line fun i => bracketed (r i) t := by
  refine .ite ?_ (.ite ?_ (.ite ?_ (.ite ?_ (.ite (steady_hash hr _) (.throw (by simp))))))
  · exact .bind (hr.expr _) fun _ => steady_spanned _ _
  · exact .bind (hr.expr _) fun _ => steady_negated _ _
  · refine .bind (steady_takeOp _) fun _ => .ite (steady_spanned _ _) ?_
    exact .bind hr.statement fun _ => .bind (steady_expectOp _) fun _ => .pure _
  · exact .bind (steady_list hr _) fun _ => steady_spanned _ _

lemma steady_callTail : Steady line fun i => callTail (r i) := by
  refine .bind steady_peek fun next => .bind steady_startsCommandArg fun _ =>
    .ite ?_ (.ite ?_ (.bind (.pure _) fun _ => ?_))
  on_goal 1 => refine .bind steady_advance fun _ => .bind (steady_list hr _) fun _ => ?_
  on_goal 2 => refine (rounds_commandArgs hr).bind _ fun _ => ?_
  all_goals exact .bind (steady_block hr) fun _ => .pure _

lemma rounds_postfixes (start : Nat) : Rounds line fun i => postfixes (r i) start := by
  intro left s hs
  refine .peek_bind (.ite (fun h => ?_) fun _ => .ite (fun h => ?_) fun _ => .ite (fun h => ?_) fun _ => .stop)
  · refine .advance_bind hs ((Bool.or_eq_true_iff.1 h).elim isEof_of_isOp isEof_of_isOp) fun _ h => ?_
    refine .past hs h steady_advance fun _ _ h => .ite (fun _ => ?_) fun _ => .fail hs h.onward (by simp)
    exact .past hs h (steady_callTail hr) fun _ _ h => .past hs h (steady_spanFrom _) fun _ _ h => .again h
  · refine .advance_bind hs (isEof_of_isOp h) fun _ h => .past hs h steady_advance fun _ _ h => ?_
    refine .ite (fun _ => ?_) fun _ => .ite (fun _ => ?_) fun _ => .fail hs h.onward (by simp)
    · exact .past hs h (steady_spanFrom _) fun _ _ h => .again h
    · exact .past hs h (steady_callTail hr) fun _ _ h => .past hs h (steady_spanFrom _) fun _ _ h => .again h
  · refine .advance_bind hs (isEof_of_isOp (Bool.and_eq_true_iff.1 h).1) fun _ h => ?_
    exact .past hs h (steady_list hr _) fun _ _ h => .past hs h (steady_spanFrom _) fun _ _ h => .again h

lemma rounds_infixes (start least : Nat) : Rounds line fun i => infixes (r i) start least := by
  intro left s hs
  refine .peek_bind ?_
  cases hpower : infixPower? s.cursor.current with
  | none => exact .stop
  | some power =>
    refine .ite (fun _ => .stop) fun _ => .advance_bind hs (isEof_of_infixPower? hpower) fun _ h => ?_
    exact .past hs h (hr.expr _) fun _ _ h => .past hs h (steady_spanFrom _) fun _ _ h => .again h

lemma rounds_modifiers (start : Nat) : Rounds line fun i => modifiers (r i) start := by
  intro node s hs
  refine .peek_bind (.ite (fun h => ?_) fun _ => .stop)
  refine .advance_bind hs (isEof_of_kind (Bool.and_eq_true_iff.1 h).1 (by simp)) fun _ h => ?_
  refine .past hs h (hr.expr _) fun _ _ h => .past hs h (steady_spanFrom _) fun _ _ h => ?_
  exact .ite (fun _ => .again h) fun _ => .again h

lemma rounds_methodParams (paren : Bool) : Rounds line fun i => methodParams (r i) paren := by
  intro params s hs
  refine .peek_bind (.ite (fun _ => .stop) fun _ => rounds_skipStars.turns () hs fun _ s₁ h₁ => ?_)
  refine .bind (settles_advance (hs.later h₁)) fun param s₂ h₂ hadvance => .ite (fun _ => ?_) fun hkind => ?_
  · exact .fail hs (h₂.trans h₁) (by simp)
  have htoken : param.isEof = false := by
    rw [isEof, beq_eq_false_iff_ne]
    rintro h
    simp [h] at hkind
  refine .past hs (h₁.past (hadvance.2 htoken)) (steady_learn _) fun _ s₃ h => .peek_bind ?_
  -- a default value follows the name or not, and so after a label; each way the parameter has been taken
  refine .ite (fun _ => .past hs h (hr.expr _) fun _ _ h => ?_) fun _ => ?_
  all_goals
    refine .past hs h (steady_atOp _) fun _ _ h => .ite (fun _ => ?_) fun _ => ?_
    on_goal 1 => refine .past hs h steady_advance fun _ _ h => .past hs h (hr.expr _) fun _ _ h => ?_
    all_goals exact .past hs h (steady_takeOp _) fun _ _ h => .ite (fun _ => .again h) fun _ => .stop

end Rules

/-- Each loop of the grammar ends in a round or takes a token in it. -/
structure Loops (line : List Token) (r : ι → Rules) : Prop where
  commandArgs : Rounds line fun i => commandArgs (r i)
  listItems : ∀ closer, Rounds line fun i => listItems (r i) closer
  skipSemicolons : Rounds line fun (_ : ι) n (_ : Unit) => skipSemicolons n
  inlineBody : ∀ stops, Rounds line fun i => inlineBody (r i) stops
  blockParams : Rounds line fun _ : ι => blockParams
  hashPairs : Rounds line fun i => hashPairs (r i)
  postfixes : ∀ start, Rounds line fun i => postfixes (r i) start
  infixes : ∀ start least, Rounds line fun i => infixes (r i) start least
  modifiers : ∀ start, Rounds line fun i => modifiers (r i) start
  skipStars : Rounds line fun (_ : ι) n (_ : Unit) => skipStars n
  methodParams : ∀ paren, Rounds line fun i => methodParams (r i) paren

lemma loops (hr : Rules.Steady line r) : Loops line r where
  commandArgs := rounds_commandArgs hr
  listItems := rounds_listItems hr
  skipSemicolons := rounds_skipSemicolons
  inlineBody := rounds_inlineBody hr
  blockParams := rounds_blockParams
  hashPairs := rounds_hashPairs hr
  postfixes := rounds_postfixes hr
  infixes := rounds_infixes hr
  modifiers := rounds_modifiers hr
  skipStars := rounds_skipStars
  methodParams := rounds_methodParams hr

/-! ## From the first token on -/

/-- The code of an interpolation is read apart from the line around it, which stands where it stood. -/
lemma steady_interpolation {part : StringPart} (span : Span) (hr : ∀ tokens, lex part.pos part.text = .ok tokens →
    ∀ s, s.cursor = .ofTokens tokens → Takes (fun i => (r i).statement) s) :
    Steady line fun i => interpolation (r i) span part := by
  intro s hs
  unfold interpolation
  cases hlex : lex part.pos part.text with
  | error fault => exact .throw hs.ended (fun h => lex_ne_exhausted _ _ (h ▸ hlex))
  | ok tokens =>
    let inner : Parsing := ⟨.ofTokens tokens, s.locals, false⟩
    suffices h : Agrees (fun i => do
        if ← atEnd then do
          modify fun s' => { s with locals := s'.locals }
          return .string span []
        else do
          let n ← (r i).statement
          expectEnd
          modify fun s' => { s with locals := s'.locals }
          return n) inner fun _ s' => s.Onward s' ∧ True from h
    have hon := Parsing.On.self (s := inner) (ended_lex hlex)
    refine .ite (fun _ => ⟨_, fun _ => rfl, suffix_rfl, trivial⟩) fun _ => ?_
    refine .bind (hr tokens hlex inner rfl) fun n s₁ h₁ => ?_
    refine .bind (steady_expectEnd s₁ (hon.later h₁.1)) fun _ s₂ h₂ => ?_
    exact ⟨_, fun _ => rfl, suffix_rfl, trivial⟩

lemma steady_joinParts {parts : List StringPart} (span : Span)
    (hparts : ∀ part ∈ parts, part.isCode → Steady line fun i => interpolation (r i) span part)
    (acc : Option Node) : Steady line fun i => joinParts (r i) span acc parts := by
  induction parts generalizing acc with
  | nil => cases acc <;> exact .pure _
  | cons part rest ih =>
    have ih := ih fun p hp => hparts p (mem_cons_of_mem part hp)
    have hpart := hparts part mem_cons_self
    intro s hs
    cases acc with
    | some left => exact .ite (fun hcode => (hpart hcode).bind (fun _ => ih _) s hs) fun _ => ih _ s hs
    | none =>
      refine .ite (fun hcode => (hpart hcode).bind (fun _ => .ite (ih _) (ih _)) s hs) fun _ => ?_
      exact Steady.ite (ih _) (ih _) s hs

section FirstToken

variable (hs : Token.Ended s.cursor.rest)

include hs

lemma takes_operand (hr : Rules.Answers s.cursor r) : Takes (fun i => operand (r i)) s := by
  refine .bind (settles_advance (.self hs)) ?_
  rintro _ s₁ h₁ ⟨rfl, htakes⟩
  cases hend : s.cursor.current.isEof with
  | true =>
    rw [beq_iff_eq.1 hend]
    exact ⟨_, fun _ => rfl, by simp, (Parsing.On.later (.self hs) h₁).ended⟩
  | false =>
    refine Steady.past ?_ hs (htakes hend)
    cases hkind : s.cursor.current.kind with
    | int =>
      cases Numeral.readInteger (plainNumeral s.cursor.current.text) with
      | ok v => exact .pure _
      | error fault => exact .throw (by simp)
    | float =>
      cases Numeral.readDecimal (plainNumeral s.cursor.current.text) with
      | ok v => exact .pure _
      | error fault => exact .throw (by simp)
    | string =>
      refine steady_joinParts _ (fun part hpart hcode => steady_interpolation _ fun tokens hlex s' hs' => ?_) none
      exact hr.statement s' (hs' ▸ .code hpart hcode hlex)
    | ident => exact steady_identifier hr.steady _
    | keyword => exact steady_keywordOperand hr.steady _
    | op => exact steady_bracketed hr.steady _
    | symbol | ivar | gvar | const => exact .pure _
    | label => exact .throw (by simp)
    | eof => exact .fail (by simp)

lemma takes_expr (hr : Rules.Answers s.cursor r) (least : Nat) : Takes (fun i => expr (r i) least) s := by
  refine .peek_bind (Settles.bind (takes_operand hs hr) fun first s₁ _ htakes => Steady.past ?_ hs htakes)
  exact (rounds_postfixes hr.steady _).bind first (rounds_infixes hr.steady _ least).steady

/-- A line that begins with a keyword goes on behind it. -/
lemma halts_advance_bind {f : ι → Token → Parse Node} (hkeyword : s.cursor.current.isEof = false)
    (hf : ∀ t, Steady s.cursor.ahead fun i => f i t) : Halts (fun i => advance >>= f i) s := by
  refine .bind (settles_advance (.self hs)) ?_
  rintro _ s₁ - ⟨rfl, htakes⟩
  exact ((hf _).past hs (htakes hkeyword)).halts

variable (hr : Rules.Answers s.cursor r)

include hr

lemma halts_conditional (hkeyword : s.cursor.current.isEof = false) : Halts (fun i => conditional (r i)) s := by
  refine halts_advance_bind hs hkeyword fun kw => .bind (hr.steady.expr _) fun _ =>
    .bind (steady_takeKeyword _) fun _ => .ite ((rounds_inlineBody hr.steady _).bind _ fun _ => ?_) ?_
  on_goal 1 =>
    refine .bind (steady_takeKeyword _) fun _ => .ite ?_ (.bind (.pure _) fun _ => ?_)
    on_goal 1 => refine (rounds_inlineBody hr.steady _).bind _ fun _ => ?_
    all_goals refine .bind (steady_takeKeyword _) fun _ => ?_
  all_goals exact .bind (steady_spanFrom _) fun _ => .bind steady_expectEnd fun _ => .pure _

lemma halts_loop (hkeyword : s.cursor.current.isEof = false) : Halts (fun i => loop (r i)) s := by
  refine halts_advance_bind hs hkeyword fun kw => .bind (steady_modify fun _ => rfl) fun _ => ?_
  refine .bind (hr.steady.expr _) fun _ => .bind (steady_modify fun _ => rfl) fun _ => ?_
  refine .bind (steady_takeKeyword _) fun _ => .bind (steady_spanFrom _) fun _ => ?_
  exact .bind steady_expectEnd fun _ => .pure _

lemma halts_method (hkeyword : s.cursor.current.isEof = false) : Halts (fun i => method (r i)) s := by
  refine halts_advance_bind hs hkeyword fun kw => .bind steady_advance fun word => .ite (.fail (by simp)) ?_
  refine .bind steady_peek fun mark => .ite (.bind steady_advance fun _ => ?_) ?_
  all_goals refine .bind (.pure _) fun name => ?_
  -- a setter is read like any other method, and a closing parenthesis or a body changes nothing behind it
  all_goals
    refine .bind (steady_takeOp _) fun paren => (rounds_methodParams hr.steady paren).bind _ fun params => ?_
    refine .ite (.bind (steady_expectOp _) fun _ => ?_) ?_
    all_goals
      refine .bind (steady_takeOp _) fun _ => .ite (.bind (hr.steady.expr _) fun _ => ?_) ?_
      all_goals
        refine .bind (.pure _) fun body => .bind (steady_spanFrom _) fun _ => ?_
        exact .bind steady_expectEnd fun _ => .pure _

variable (hexpr : ∀ least, Takes (fun i => (r i).expr least) s)

include hexpr

/-- A statement asks for an expression at its own first token. -/
lemma takes_simpleStatement : Takes (fun i => simpleStatement (r i)) s := by
  refine .peek_bind (Settles.bind (settles_takeKeyword _ (.self hs)) fun taken s₁ h₁ htaken => ?_)
  cases taken with
  | false =>
    obtain rfl : s₁ = s := htaken
    exact hexpr _
  | true =>
    refine Steady.past (.bind steady_peek fun _ => .ite (steady_spanned _ _) ?_) hs htaken
    exact .bind (hr.steady.expr _) fun _ => steady_spanned _ _

lemma takes_statement : Takes (fun i => statement (r i)) s := by
  refine .peek_bind (Settles.bind (takes_simpleStatement hs hr hexpr) fun target _ _ htakes => ?_)
  refine Steady.past ?_ hs htakes
  have hmodifiers := (rounds_modifiers hr.steady s.cursor.current.pos).steady
  refine .bind steady_peek fun t => .ite (.bind steady_advance fun _ => .bind (hr.steady.expr _) fun _ => ?_) ?_
  · exact .bind (steady_assignmentTo _ _ _ _) hmodifiers
  · cases (if t.kind == .op then compound? t.text else none) with
    | some op =>
      refine .bind steady_advance fun _ => .bind (hr.steady.expr _) fun _ => ?_
      exact .bind (steady_assignmentTo _ _ _ _) hmodifiers
    | none => exact hmodifiers target

/-- A line asks for what a statement asks for. -/
lemma halts_line : Halts (fun i => Grammar.line (r i)) s := by
  have hstatement : Halts (fun i => do
      let n ← statement (r i)
      expectEnd
      return n) s := .bind (takes_statement hs hr hexpr) fun _ s₁ h₁ _ =>
    Steady.bind steady_expectEnd (fun _ => .pure _) s₁ (.later (.self hs) h₁)
  refine .peek_bind (.ite (fun h => ?_) fun _ => hstatement)
  have hkeyword := isEof_of_kind h (by simp)
  refine .ite (fun _ => halts_conditional hs hr hkeyword) fun _ => .ite (fun _ => halts_loop hs hr hkeyword) fun _ => ?_
  exact .ite (fun _ => halts_method hs hr hkeyword) fun _ => .ite (fun _ => Settles.pure trivial) fun _ => hstatement

end FirstToken

end Grammar

/-! ## Any depth -/

lemma foldr_depth_le {tokens tokens' : List Token} (h : tokens <:+ tokens') :
    tokens.foldr (fun t n => t.depth + n) 0 ≤ tokens'.foldr (fun t n => t.depth + n) 0 := by
  obtain ⟨front, rfl⟩ := h
  induction front with
  | nil => exact le_refl _
  | cons t front ih => exact ih.trans (le_add_left _ _)

namespace Cursor

variable {c c' : Cursor}

lemma depth_eq (c : Cursor) : c.depth = c.rest.foldr (fun t n => t.depth + n) 0 + 2 := rfl

lemma Asks.ended (h : c.Asks c') (hc : Token.Ended c.rest) : Token.Ended c'.rest := by
  cases h with
  | behind h => exact hc.suffix (h.trans (suffix_cons ..)) (cons_ne_nil _ _)
  | code _ _ hlex => exact ended_lex hlex

/-- What is asked for has room for two levels less. -/
lemma Asks.depth_le (h : c.Asks c') : c'.depth + 2 ≤ c.depth := by
  cases h with
  | behind h =>
    have hle := foldr_depth_le h
    have htwo : 2 ≤ c.current.depth := le_add_right _ _
    rw [depth_eq, depth]
    omega
  | @code part tokens hpart hcode hlex =>
    have hle := (bounds_lex hlex).2
    have hpart := Lexer.le_codeDepth hpart hcode
    rw [depth_eq, rest_ofTokens (Lexer.cut_of_lex hlex).exists_last, depth, Token.depth, ← Lexer.codeDepth]
    omega

end Cursor

lemma wellFounded_asks : WellFounded fun c' c : Cursor => c.Asks c' :=
  Subrelation.wf (fun h => Nat.lt_of_lt_of_le (Nat.lt_add_of_pos_right (by decide)) h.depth_le)
    (measure Cursor.depth).wf

namespace Rules

lemma takes_upTo {s : Parsing} (hs : Token.Ended s.cursor.rest) :
    (∀ least k, s.cursor.depth ≤ k + 2 → Takes (fun j => (upTo (j + k)).expr least) s) ∧
      ∀ k, s.cursor.depth ≤ k + 1 → Takes (fun j => (upTo (j + k)).statement) s := by
  induction hc : s.cursor using wellFounded_asks.induction generalizing s with
  | _ c ih =>
  subst hc
  have hanswers : ∀ k, s.cursor.depth ≤ k + 3 → Answers s.cursor fun j => upTo (j + k) := by
    intro k hk
    refine ⟨fun least s' h => ?_, fun s' h => ?_⟩
    · exact (ih s'.cursor h (h.ended hs) rfl).1 least k (by have := h.depth_le; omega)
    · exact (ih s'.cursor h (h.ended hs) rfl).2 k (by have := h.depth_le; omega)
  have hdepth : 2 < s.cursor.depth := Nat.lt_add_of_pos_left (Nat.add_pos_left (Nat.add_pos_left (by decide) _) _)
  have hexpr : ∀ least k, s.cursor.depth ≤ k + 2 → Takes (fun j => (upTo (j + k)).expr least) s := by
    intro least k hk
    obtain _ | k := k
    · omega
    · exact takes_expr hs (hanswers k (by omega)) least
  refine ⟨hexpr, fun k hk => ?_⟩
  obtain _ | k := k
  · omega
  · exact takes_statement hs (hanswers k (by omega)) fun least => hexpr least k (by omega)

/-- Rules for constructs as deep as a line has room for come to an end everywhere on it. -/
lemma steady_upTo (s : Parsing) : Rules.Steady s.cursor.rest fun j => upTo (j + s.cursor.depth) := by
  have hle : ∀ s' : Parsing, s'.On s.cursor.rest → s'.cursor.depth ≤ s.cursor.depth := fun s' hs' =>
    Nat.add_le_add_right (foldr_depth_le hs'.suffix) 2
  refine ⟨fun least s' hs' => ?_, fun s' hs' => ?_⟩
  · exact (takes_upTo hs'.ended).1 least _ (le_add_right_of_le (hle s' hs'))
  · exact (takes_upTo hs'.ended).2 _ (le_add_right_of_le (hle s' hs'))

lemma answers_upTo {s : Parsing} (hs : Token.Ended s.cursor.rest) :
    Answers s.cursor fun j => upTo (j + s.cursor.depth) := by
  refine ⟨fun least s' h => ?_, fun s' h => ?_⟩
  · exact (takes_upTo (h.ended hs)).1 least _ (by have := h.depth_le; omega)
  · exact (takes_upTo (h.ended hs)).2 _ (by have := h.depth_le; omega)

end Rules

lemma halts_line_upTo {s : Parsing} (hs : Token.Ended s.cursor.rest) :
    Halts (fun j => line (Rules.upTo (j + s.cursor.depth))) s :=
  Grammar.halts_line hs (Rules.answers_upTo hs) fun least => (Rules.steady_upTo s).takes_expr least s (.self hs)

lemma parseLine_ne_exhausted (locals : List Text) (offset : Nat) (text : Text) :
    (parseLine locals offset text).1 ≠ .error .exhausted := by
  rw [parseLine]
  cases hlex : lex offset text with
  | error fault => exact fun h => lex_ne_exhausted offset text (hlex.trans (congrArg _ (Except.error.inj h)))
  | ok tokens =>
    have hline := halts_line_upTo (s := ⟨.ofTokens tokens, locals, false⟩) (ended_lex hlex)
    rcases (hline.reindex fun _ : Unit => 0).cases with ⟨n, s', hrun, -⟩ | ⟨fault, s', hrun, hfault, -⟩ <;>
      (have hrun := hrun (); rw [zero_add] at hrun)
    · simp [parseTokens, hrun]
    · simpa [parseTokens, hrun] using hfault

/-- Code inside a token is shorter than the text around it. -/
lemma length_lt_of_lex {offset : Nat} {text : Text} {tokens : List Token} (h : lex offset text = .ok tokens) {t : Token}
    (ht : t ∈ tokens) {part : StringPart} (hpart : part ∈ t.parts) (hcode : part.isCode) :
    part.text.length < text.length := by
  obtain ⟨front, back, rfl⟩ := append_of_mem ht
  have hle := (foldr_depth_le (suffix_append front (t :: back))).trans (bounds_lex h).2
  have hdepth := Lexer.le_codeDepth hpart hcode
  rw [foldr_cons, depth, ← Lexer.codeDepth] at hle
  omega

/-- Every text and every line is read to an end. A text has no more tokens than bytes, the end apart, and code in them
is shorter than the text; the cursor moves on by one token and never passes the end. Each loop ends in a round or
takes a token in it. A construct is read if the rules end that it asks behind its first token or for code in it,
which cannot go on forever. So a line has one outcome, whatever depth it is given beyond the one it has room for,
and each node of a source is that of a line read with room to spare. -/
theorem reading_halts (offset : Nat) (text source : Text) (s : Parsing) (hs : Token.Ended s.cursor.rest) :
    lex offset text ≠ .error .exhausted ∧
    (∀ tokens, lex offset text = .ok tokens → Token.Ended (Cursor.ofTokens tokens).rest ∧
      tokens.length ≤ text.length + 1 ∧
      ∀ t ∈ tokens, ∀ part ∈ t.parts, part.isCode = true → part.text.length < text.length) ∧
    (s.cursor.current.isEof = true → s.cursor.next = s.cursor) ∧
    (s.cursor.current.isEof = false → s.cursor.next.rest = s.cursor.ahead) ∧
    Grammar.Loops s.cursor.rest (fun j => Rules.upTo (j + s.cursor.depth)) ∧
    (∀ (ι : Type) (r : ι → Rules), Rules.Answers s.cursor r →
      (∀ least, Takes (fun i => expr (r i) least) s) ∧
      ((∀ least, Takes (fun i => (r i).expr least) s) →
        Takes (fun i => statement (r i)) s ∧ Halts (fun i => line (r i)) s)) ∧
    WellFounded (fun c' c : Cursor => c.Asks c') ∧
    Halts (fun j => line (Rules.upTo (j + s.cursor.depth))) s ∧
    ∀ n ∈ reconstruct source, ∃ (i : Nat) (line : Text) (locals : List Text) (start : Nat),
      source.lines[i]? = some line ∧
      n = (Lines.node locals start line.trimmed).1 ∧
      (parseLine locals start line.trimmed).1 ≠ .error .exhausted := by
  refine ⟨lex_ne_exhausted offset text, fun tokens hlex => ?_, Cursor.next_of_isEof, Cursor.rest_next hs,
    loops (Rules.steady_upTo s), fun ι r hr => ?_, wellFounded_asks, halts_line_upTo hs, fun n hn => ?_⟩
  · exact ⟨ended_lex hlex, (bounds_lex hlex).1, fun t ht part => length_lt_of_lex hlex ht⟩
  · exact ⟨takes_expr hs hr, fun hexpr =>
      ⟨Grammar.takes_statement hs hr hexpr, Grammar.halts_line hs hr hexpr⟩⟩
  · obtain ⟨i, line, locals, hline, -, rfl⟩ := Lines.exists_of_mem_nodes hn
    exact ⟨i, line, locals, _, hline, rfl, parseLine_ne_exhausted _ _ _⟩

/-- Brackets that are not closed, also in code inside a string: no depth makes a difference. -/
theorem reading_halts_unclosed : ∃ tokens, lex 0 "[a, \"#\x7bb(\x7d\"" = .ok tokens ∧
    (parseTokens [] tokens).1.isOk = false ∧ ∃ out, ∀ j,
      line (Rules.upTo (j + (Cursor.ofTokens tokens).depth)) ⟨Cursor.ofTokens tokens, [], false⟩ = out := by
  have hread : (lex 0 "[a, \"#\x7bb(\x7d\"").toOption = some [⟨.op, "[", [], 0, 1, false⟩,
      ⟨.ident, "a", [], 1, 2, false⟩, ⟨.op, ",", [], 2, 3, false⟩,
      ⟨.string, "\"#\x7bb(\x7d\"", [⟨"b(", 7, true⟩], 4, 11, true⟩, ⟨.eof, [], [], 11, 11, false⟩] := by
    decide +kernel
  have hlex := lex_eq_ok hread
  obtain ⟨out, hout, -⟩ := (reading_halts 0 [] [] ⟨Cursor.ofTokens _, [], false⟩ (ended_lex hlex)).2.2.2.2.2.2.2.1
  exact ⟨_, hlex, by decide +kernel, out, hout⟩

end Transpiler
