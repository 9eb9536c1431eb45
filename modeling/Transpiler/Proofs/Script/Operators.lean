import Transpiler.Proofs.Script.Emission
import Transpiler.Proofs.Script.Grouping
import Transpiler.Proofs.Script.Spelling

/-!
# Operators keep their grouping

The operators of the source are calls, so its trees say how they are grouped; the generated code has to say it with
parentheses, which the generator decides about one node at a time. The expressions made of variables, literals,
operators and conditionals (`Operation`) are followed through the generator and read back with JavaScript's own
precedence: what comes back is the image of the tree.
-/

namespace Transpiler.Script

open Js List

/-! ## The image of a tree -/

/-- Whether it is a conditional. -/
def isCond : Node → Bool
  | .cond .. => true
  | _ => false

/-- The expressions made of variables, literals, operators and conditionals. A conditional has one
consequence and at most one alternative, and its condition is no conditional unless it is negated. -/
inductive Operation : Node → Prop where
  | var (span : Span) (name : Text) (scope : Scope) : Operation (.var span name scope)
  | self (span : Span) : Operation (.self span)
  | string (span : Span) (value : Text) : Operation (.string span value)
  | symbol (span : Span) (value : Text) : Operation (.symbol span value)
  | integer (span : Span) (value : Int64) : Operation (.integer span value)
  | float (span : Span) (value : Binary64) : Operation (.float span value)
  | boolean (span : Span) (value : Bool) : Operation (.boolean span value)
  | nil (span : Span) : Operation (.nil span)
  | unary (span : Span) {receiver : Node} {name : Text} {blk : Node}
      (h : isOperator receiver name [] blk) (hr : Operation receiver) :
      Operation (.call span receiver name [] blk)
  | binary (span : Span) {receiver : Node} {name : Text} {argument blk : Node}
      (h : isOperator receiver name [argument] blk) (hr : Operation receiver)
      (ha : Operation argument) : Operation (.call span receiver name [argument] blk)
  | cond (span : Span) {condition : Node} {negated : Bool} {consequence : Node}
      (h : negated ∨ isCond condition = false) (hc : Operation condition)
      (ht : Operation consequence) : Operation (.cond span condition negated [consequence] [])
  | condElse (span : Span) {condition : Node} {negated : Bool} {consequence alternative : Node}
      (h : negated ∨ isCond condition = false) (hc : Operation condition)
      (ht : Operation consequence) (he : Operation alternative) :
      Operation (.cond span condition negated [consequence] [alternative])

/-- The binary operator written. -/
def binaryImage (name : Text) : Text :=
  if name = "==" then "===" else if name = "!=" then "!==" else name

/-- The unary operator written. -/
def unaryImage (name : Text) : Text :=
  if name = "-@" then "-" else if name = "+@" then "+" else name

/-- A number with its sign, which is an operator of its own. -/
def signed (negative : Bool) (magnitude : Tree) : Tree :=
  if negative then .unary "-" magnitude else magnitude

/-- A condition, negated if it has to be. -/
def negatedIf (negated : Bool) (condition : Tree) : Tree :=
  if negated then .unary "!" condition else condition

/-- A property of an object, in brackets unless it can follow a dot. -/
def propertyImage (object : Tree) (name : Text) : Tree :=
  if isProperty name then .member object name else .index object (.string name.shown)

/-- The tree of a variable. -/
def variableImage (name : Text) : Scope → Tree
  | .object => propertyImage .this (dropSigils name)
  | .global => propertyImage (.name "globalThis") (name.dropByte '$')
  | .local | .constant => .name (binding name)

/-- The image of a float: not every float has a numeral. -/
def floatImage (x : Binary64) : Tree :=
  match x.value with
  | .nan => .name "NaN"
  | .infinite negative => signed negative (.name "Infinity")
  | .finite negative m q => signed negative (.number (literalDecimal (.shortest m q)))

/-- The tree of JavaScript with the grouping of a node. -/
def image (n : Node) : Tree :=
  match n with
  | .var _ name scope => variableImage name scope
  | .self _ => .this
  | .string _ value | .symbol _ value => .string value.shown
  | .integer _ v => signed (v < 0) (.number (Text.ofNat v.toInt.natAbs))
  | .float _ x => floatImage x
  | .boolean _ value => .boolean value
  | .nil _ => .null
  | .call _ receiver name [] _ => .unary (unaryImage name) (image receiver)
  | .call _ receiver name [argument] _ => .binary (image receiver) (binaryImage name) (image argument)
  | .cond _ condition negated [consequence] [] =>
    .conditional (negatedIf negated (image condition)) (image consequence) .null
  | .cond _ condition negated [consequence] [alternative] =>
    .conditional (negatedIf negated (image condition)) (image consequence) (image alternative)
  | _ => .null

/-! ## Leaves -/

lemma atom?_binding (name : Text) : atom? (.word (binding name)) = some (.name (binding name)) := by
  have hreserved : ((List.map Text.ofString ["this", "null", "true", "false"] ++ keywords).all
      reservedWords.contains) := by decide
  have hne : ∀ w ∈ List.map Text.ofString ["this", "null", "true", "false"] ++ keywords, binding name ≠ w := by
    rintro w hw rfl
    exact binding_not_mem_reservedWords name (contains_iff_mem.mp (all_eq_true.mp hreserved _ hw))
  simp only [map_cons, map_nil, cons_append, nil_append, forall_mem_cons] at hne
  obtain ⟨h1, h2, h3, h4, hkeywords⟩ := hne
  have hk : binding name ∉ keywords := fun h => hkeywords _ h rfl
  simp [atom?, h1, h2, h3, h4, hk]

lemma operandText_property {w : Text} (hw : IsWord w) {object : Tree}
    (h : atom? (.word w) = some object) (name : Text) :
    OperandText (w ++ member name) (propertyImage object name) := by
  have hmark : ∀ b, b = '.'.toUInt8 ∨ b = '['.toUInt8 → isWordByte b = false := by
    rintro b (rfl | rfl) <;> decide
  have hobject := isOperand_atom h
  unfold member propertyImage
  -- after the word comes a dot or a bracket, either of which ends it
  split_ifs with hname
  · have hspells := spells_word (isWord_of_isProperty hname)
    obtain ⟨hne, hfirst⟩ := hspells.first (by simp)
    refine operandText_of_spells (spells_append hw.reaches rfl
      (spells_punct_append (p := ".") (by decide) hspells hne hfirst) fun rest => ?_) (by simp)
      (hobject.member name)
    exact endsAt_word fun b hb => hmark b (.inl (Option.some.inj hb).symm)
  · refine operandText_of_spells (spells_append hw.reaches rfl
      (spells_bracketed (spells_quote name) (.inr rfl) (.inr rfl)) fun rest => ?_) (by simp)
      (hobject.index ((isOperand_atom rfl).isExpr 0))
    exact endsAt_word fun b hb => hmark b (.inr (Option.some.inj hb).symm)

lemma operandText_variable (name : Text) (scope : Scope) (unit : Text) (depth : Nat) :
    OperandText ((variableExpr name scope).text unit depth) (variableImage name scope) := by
  cases scope with
  | object => exact operandText_property (w := "this") (by decide) rfl _
  | global => exact operandText_property (w := "globalThis") (by decide) rfl _
  | «local» => exact operandText_word (isWord_binding name) (atom?_binding name)
  | constant => exact operandText_word (isWord_binding name) (atom?_binding name)

/-! ## Operators -/

lemma unaryOperator?_eq {name op : Text} (h : unaryOperator? name = some op) :
    op = unaryImage name ∧ op ∈ unaryOperators := by
  unfold unaryOperator? at h
  split_ifs at h with h1 h2 h3 h4 <;>
    · obtain rfl := Option.some.inj h
      simp only [beq_iff_eq] at *
      subst name
      decide

lemma binaryOperator?_eq {name op : Text} (h : binaryOperator? name = some op) :
    op = binaryImage name ∧ ∃ level, levels.lookup op = some level ∧ 1 ≤ level := by
  have htable : ∀ p ∈ binaryOperators, p.2 = binaryImage p.1 ∧ 1 ≤ (levels.lookup p.2).getD 0 := by decide
  obtain ⟨heq, hlevel⟩ := htable _ (mem_binaryOperators h)
  refine ⟨heq, ?_⟩
  cases hl : levels.lookup op with
  | none => simp [hl] at hlevel
  | some level => exact ⟨level, rfl, by simpa [hl] using hlevel⟩

/-- The generator expresses a node as `e`, and the text of `e` is read as the image of the node: on its own,
before a question mark unless it is a conditional, and as an operand once it is grouped. -/
structure Renders (o : Options) (n : Node) (e : Expr) : Prop where
  emits : ∀ s, expr o n s = .ok e s
  whole : ∀ unit depth, ExprText 0 (e.text unit depth) (image n)
  condition : isCond n = false → ∀ unit depth, ExprText 1 (e.text unit depth) (image n)
  operand : ∀ unit depth, OperandText ((grouped n e).text unit depth) (image n)

section Renders

variable {o : Options} {n : Node} {e : Expr}

variable (hemits : ∀ s, expr o n s = .ok e s)

include hemits

lemma renders_of_operand (hgroup : needsGroup n = false)
    (h : ∀ unit depth, OperandText (e.text unit depth) (image n)) : Renders o n e where
  emits := hemits
  whole unit depth := (h unit depth).exprText 0
  condition _ unit depth := (h unit depth).exprText 1
  operand unit depth := by simpa [grouped, hgroup] using h unit depth

lemma renders_of_group (hgroup : needsGroup n)
    (h : ∀ unit depth, ExprText 1 (e.text unit depth) (image n)) : Renders o n e where
  emits := hemits
  whole unit depth := (h unit depth).of_le (Nat.zero_le 1)
  condition _ := h
  operand unit depth := by
    simpa [grouped, hgroup, Expr.text] using ((h unit depth).of_le (Nat.zero_le 1)).group

/-- A number with a sign is in parentheses exactly if the sign shows. -/
lemma renders_of_sign {negative : Bool} {magnitude : Text} {m : Tree} (hgroup : needsGroup n = negative)
    (htext : ∀ unit depth, e.text unit depth = signText negative ++ magnitude)
    (himage : image n = signed negative m) (hm : OperandText magnitude m) : Renders o n e := by
  cases negative with
  | false =>
    refine renders_of_operand hemits hgroup fun unit depth => ?_
    rw [htext, himage]
    exact hm
  | true =>
    have hminus : Text.ofString "-" ∈ unaryOperators := by decide
    refine renders_of_group hemits hgroup fun unit depth => ?_
    rw [htext, himage]
    exact (hm.unary hminus).of_le (by decide)

/-- A conditional is an operand only in parentheses, and no condition. -/
lemma renders_of_cond (hcond : isCond n)
    (h : ∀ unit depth, ExprText 0 (e.text unit depth) (image n)) : Renders o n e where
  emits := hemits
  whole := h
  condition hno := by simp [hcond] at hno
  operand unit depth := by
    have hgroup : needsGroup n := by cases n <;> first | rfl | cases hcond
    simpa [grouped, hgroup, Expr.text] using (h unit depth).group

omit hemits

/-- The text of a condition is closed by the question mark after it. -/
lemma Renders.conditionOf (h : Renders o n e) {negated : Bool}
    (hn : negated ∨ isCond n = false) (unit : Text) (depth : Nat) :
    ExprText 1 ((conditionOf n negated e).text unit depth) (negatedIf negated (image n)) := by
  cases negated with
  | true =>
    have hbang : Text.ofString "!" ∈ unaryOperators := by decide
    exact ((h.operand unit depth).unary hbang).of_le (by decide)
  | false =>
    exact h.condition (hn.resolve_left (by simp)) unit depth

end Renders

/-! ## Numbers -/

lemma renders_integer (o : Options) (span : Span) (v : Int64) : Renders o (.integer span v) (.integer v) := by
  refine renders_of_sign (fun _ => rfl) rfl (fun unit depth => ?_) rfl
    (operandText_number (isNumeral_ofNat v.toInt.natAbs))
  have hsign : needsGroup (.integer span v) = decide (v.toInt < 0) := by
    simp [needsGroup, Int64.lt_iff_toInt_lt]
  rw [hsign]
  exact ofInt_eq v.toInt

lemma renders_float (o : Options) (span : Span) (x : Binary64) : Renders o (.float span x) (.float x) := by
  cases hx : x.value with
  | nan =>
    refine renders_of_operand (fun _ => rfl) (by simp [needsGroup, Binary64.isNaN, hx]) fun _ _ => ?_
    have himage : image (.float span x) = .name "NaN" := by simp [image, floatImage, hx]
    have htext : floatLiteral x = Text.ofString "NaN" := by simp [floatLiteral, hx]
    rw [himage, Expr.text, htext]
    exact operandText_word (by decide) rfl
  | infinite negative =>
    have hgroup : needsGroup (.float span x) = negative := by
      simp [needsGroup, Binary64.isNaN, hx, Binary64.isNegative_of_infinite hx]
    refine renders_of_sign (fun _ => rfl) hgroup (fun _ _ => ?_) ?_ (operandText_word (w := "Infinity") (by decide) rfl)
    · simp [Expr.text, floatLiteral, hx]
    · simp [image, floatImage, hx]
  | finite negative m q =>
    have hgroup : needsGroup (.float span x) = negative := by
      simp [needsGroup, Binary64.isNaN, hx, Binary64.isNegative_of_finite hx]
    refine renders_of_sign (fun _ => rfl) hgroup (fun _ _ => ?_) ?_
      (operandText_number (isNumeral_literalDecimal (digits_shortest m q)))
    · simp [Expr.text, floatLiteral, hx]
    · simp [image, floatImage, hx]

/-! ## Calls and conditionals -/

lemma Renders.unary {o : Options} {receiver : Node} {r : Expr} (hr : Renders o receiver r) (span : Span)
    {name : Text} {blk : Node} (h : isOperator receiver name [] blk) :
    ∃ e, Renders o (.call span receiver name [] blk) e := by
  obtain ⟨⟨habsent, -⟩, hunary⟩ : (receiver.isAbsent = false ∧ blk.isBlock = false) ∧ (unaryOperator? name).isSome := by
    simpa [isOperator] using h
  obtain ⟨op, hop⟩ := Option.isSome_iff_exists.mp hunary
  obtain ⟨rfl, hmem⟩ := unaryOperator?_eq hop
  refine ⟨.unary (unaryImage name) (grouped receiver r), renders_of_group (fun s => ?_) h
    fun unit depth => ((hr.operand unit depth).unary hmem).of_le (by decide)⟩
  rw [expr_call o span habsent, if_pos h, hop]
  exact bind_of_eq_ok (hr.emits s)

lemma Renders.binary {o : Options} {receiver argument : Node} {r a : Expr} (hr : Renders o receiver r)
    (ha : Renders o argument a) (span : Span) {name : Text} {blk : Node}
    (h : isOperator receiver name [argument] blk) :
    ∃ e, Renders o (.call span receiver name [argument] blk) e := by
  obtain ⟨⟨habsent, -⟩, hbinary⟩ : (receiver.isAbsent = false ∧ blk.isBlock = false) ∧
      (binaryOperator? name).isSome := by
    simpa [isOperator] using h
  obtain ⟨op, hop⟩ := Option.isSome_iff_exists.mp hbinary
  obtain ⟨rfl, level, hlevel, hle⟩ := binaryOperator?_eq hop
  refine ⟨.binary (grouped receiver r) (binaryImage name) (grouped argument a),
    renders_of_group (fun s => ?_) h fun unit depth =>
      ((hr.operand unit depth).binary (ha.operand unit depth) hlevel).of_le hle⟩
  rw [expr_call o span habsent, if_pos h, hop]
  exact (bind_of_eq_ok (hr.emits s)).trans (bind_of_eq_ok (ha.emits s))

/-- Every expression of this kind is expressed, and its text is read as its image. -/
lemma exists_renders (o : Options) {n : Node} (h : Operation n) : ∃ e, Renders o n e := by
  -- operators and conditionals only take operands, which the hypotheses give in parentheses as needed
  induction h with
  | var span name scope =>
    exact ⟨_, renders_of_operand (fun _ => rfl) rfl (operandText_variable name scope)⟩
  | self span =>
    exact ⟨_, renders_of_operand (fun _ => rfl) rfl fun _ _ =>
      operandText_word (w := "this") (by decide) rfl⟩
  | string span value =>
    exact ⟨_, renders_of_operand (fun _ => rfl) rfl fun _ _ =>
      operandText_of_spells (spells_quote value) (by simp) (isOperand_atom rfl)⟩
  | symbol span value =>
    exact ⟨_, renders_of_operand (fun _ => rfl) rfl fun _ _ =>
      operandText_of_spells (spells_quote value) (by simp) (isOperand_atom rfl)⟩
  | integer span value => exact ⟨_, renders_integer o span value⟩
  | float span value => exact ⟨_, renders_float o span value⟩
  | boolean span value =>
    refine ⟨_, renders_of_operand (fun _ => rfl) rfl fun _ _ => ?_⟩
    cases value with
    | true => exact operandText_word (w := "true") (by decide) rfl
    | false => exact operandText_word (w := "false") (by decide) rfl
  | nil span =>
    exact ⟨_, renders_of_operand (fun _ => rfl) rfl fun _ _ =>
      operandText_word (w := "null") (by decide) rfl⟩
  | unary span h hr ih =>
    obtain ⟨r, ih⟩ := ih
    exact ih.unary span h
  | binary span h hr ha ihr iha =>
    obtain ⟨r, ihr⟩ := ihr
    obtain ⟨a, iha⟩ := iha
    exact ihr.binary iha span h
  | @cond span condition negated consequence h hc ht ihc iht =>
    obtain ⟨c, ihc⟩ := ihc
    obtain ⟨t, iht⟩ := iht
    refine ⟨.conditional (conditionOf condition negated c) (grouped consequence t) .null,
      renders_of_cond (fun s => ?_) rfl fun unit depth =>
      (ihc.conditionOf h unit depth).conditional (iht.operand unit depth)
        (operandText_word (w := "null") (by decide) rfl)⟩
    rw [expr]
    exact (bind_of_eq_ok (ihc.emits s)).trans (bind_of_eq_ok (iht.emits s))
  | @condElse span condition negated consequence alternative h hc ht he ihc iht ihe =>
    obtain ⟨c, ihc⟩ := ihc
    obtain ⟨t, iht⟩ := iht
    obtain ⟨e, ihe⟩ := ihe
    refine ⟨.conditional (conditionOf condition negated c) (grouped consequence t)
      (grouped alternative e), renders_of_cond (fun s => ?_) rfl fun unit depth =>
      (ihc.conditionOf h unit depth).conditional (iht.operand unit depth) (ihe.operand unit depth)⟩
    rw [expr]
    exact (bind_of_eq_ok (ihc.emits s)).trans ((bind_of_eq_ok (iht.emits s)).trans (bind_of_eq_ok (ihe.emits s)))

/-- Operators keep their grouping: every expression made of variables, literals, operators and conditionals
is expressed, and JavaScript reads the text as the image of the tree. -/
theorem read_text_expr (o : Options) {n : Node} (h : Operation n) :
    ∃ e, (∀ s, expr o n s = .ok e s) ∧ ∀ unit depth, Js.read (e.text unit depth) = some (image n) := by
  obtain ⟨e, he⟩ := exists_renders o h
  exact ⟨e, he.emits, fun unit depth => (he.whole unit depth).read_eq⟩

/-- The power of a negated number, compared with a conditional:
`((-a) ** (b - (c - 1))) === (!d ? (-2) : null)`. -/
def comparedPower : Node :=
  .call .none
    (.call .none (.call .none (.var .none "a" .local) "-@" [] .absent) "**"
      [.call .none (.var .none "b" .local) "-"
        [.call .none (.var .none "c" .local) "-" [.integer .none 1] .absent] .absent] .absent) "=="
    [.cond .none (.var .none "d" .local) true [.integer .none (-2)] []] .absent

theorem read_text_comparedPower : Operation comparedPower ∧ ∃ e,
    (∀ s, expr .default comparedPower s = .ok e s) ∧ ∀ unit depth, Js.read (e.text unit depth) = some
      (.binary
        (.binary (.unary "-" (.name "a")) "**" (.binary (.name "b") "-" (.binary (.name "c") "-" (.number "1"))))
        "==="
        (.conditional (.unary "!" (.name "d")) (.unary "-" (.number "2")) .null)) := by
  have h : Operation comparedPower :=
    .binary _ (by decide)
      (.binary _ (by decide) (.unary _ (by decide) (.var _ _ _))
        (.binary _ (by decide) (.var _ _ _) (.binary _ (by decide) (.var _ _ _) (.integer _ _))))
      (.cond _ (.inl rfl) (.var _ _ _) (.integer _ _))
  obtain ⟨e, hemits, hread⟩ := read_text_expr .default h
  refine ⟨h, e, hemits, fun unit depth => ?_⟩
  rw [hread]
  decide +kernel

end Transpiler.Script
