import Transpiler.Proofs.Script.Pieces

/-!
# The edges of an expression

Whether an expression can stand beside something depends on its edges and on what it leaves outside its brackets.
All three are found on the node without generating its code (`edges`): whether its text starts with a minus sign,
whether it ends with a whole number, and whether it has an assignment or a conditional outside its brackets. The text
has exactly these edges (`edged_expr`).
-/

namespace Transpiler.Script

open List Js

/-! ## Forms of calls -/

/-- How a call is written. -/
inductive Form where
  /-- A command, or the call of a function. -/
  | plain
  | operator
  | construct
  /-- An element in brackets. -/
  | index
  /-- The call of a method under a name. -/
  | method (name : Text)
  /-- An assignment to a property. -/
  | setter (property : Text)
  /-- An assignment to an element. -/
  | indexSetter
deriving DecidableEq, Repr

/-- The form of a method call without a block. -/
def methodForm (name : Text) : List Node → Form
  | [_] =>
    if name == "[]" then .index
    else if name == "<<" then .method "push"
    else if isSetter name then .setter name.dropLast
    else .method name
  | [_, _] => if name == "[]=" then .indexSetter else .method name
  | _ => .method name

/-- The form of a call. -/
def form (o : Options) (receiver : Node) (name : Text) (arguments : List Node) (blk : Node) : Form :=
  if receiver.isAbsent then .plain
  else if isOperator receiver name arguments blk then .operator
  else if (constructed? o receiver name).isSome then .construct
  else if blk.isBlock then .method name
  else methodForm name arguments

/-- The nodes that stand in parentheses beside something: operators, conditionals, blocks, hashes and negative
numbers. -/
def isEnclosed (o : Options) : Node → Bool
  | .call _ receiver name arguments blk => form o receiver name arguments blk == .operator
  | .cond .. | .block .. | .hash .. => true
  | .integer _ v => v < 0
  | .float _ x => x.isNegative && !x.isNaN
  | _ => false

lemma methodForm_ne_operator (name : Text) (arguments : List Node) : methodForm name arguments ≠ .operator := by
  match arguments with
  | [] | _ :: _ :: _ :: _ => simp [methodForm]
  | [_] | [_, _] =>
    rw [methodForm]
    split_ifs <;> simp

lemma needsGroup_eq_isEnclosed (o : Options) (n : Node) : needsGroup n = isEnclosed o n := by
  cases n with
  | call span receiver name arguments blk =>
    rw [needsGroup, isEnclosed, form]
    by_cases habsent : receiver.isAbsent
    · simp [isOperator, habsent]
    · split_ifs with hoperator
      · simp [hoperator]
      all_goals simp [hoperator, methodForm_ne_operator]
  | _ => rfl

/-! ## Results of steps -/

/-- What a step returns has a property, whatever the state. -/
def Gives {α : Type} (x : Emit α) (result : α → Prop) : Prop := ∀ s a s', x s = .ok a s' → result a

namespace Gives

variable {α β : Type} {x : Emit α} {result : α → Prop} {result' : β → Prop}

lemma pure {a : α} (h : result a) : Gives (Pure.pure a) result := by
  rintro s b s' hrun
  obtain ⟨rfl, -⟩ : a = b ∧ s = s' := by simpa [Pure.pure, EStateM.pure] using hrun
  exact h

lemma bind {f : α → Emit β} (hx : Gives x result) (hf : ∀ a, result a → Gives (f a) result') :
    Gives (x >>= f) result' := by
  intro s b s' hrun
  cases hxs : x s with
  | ok a s₁ =>
    rw [bind_of_eq_ok hxs] at hrun
    exact hf a (hx s a s₁ hxs) s₁ b s' hrun
  | error tag s₁ =>
    rw [bind_of_eq_error hxs] at hrun
    cases hrun

lemma any (x : Emit α) : Gives x fun _ => True := fun _ _ _ _ => trivial

lemma refuse (tag : Text) : Gives (.refuse tag) result := by
  intro s a s' hrun
  cases hrun

lemma of_twin {tag : Text → Prop} {rel : α → α → Prop} (h : Twin tag rel x x) : Gives x fun a => rel a a := by
  intro s a s' hrun
  obtain ⟨b, c, s₁, hb, hc, hrel⟩ | ⟨t, s₁, ht, -⟩ := h s
  · rw [hrun] at hb hc
    obtain ⟨rfl, -⟩ := EStateM.Result.ok.inj hb
    obtain ⟨rfl, -⟩ := EStateM.Result.ok.inj hc
    exact hrel
  · rw [hrun] at ht
    cases ht

lemma and {result₂ : α → Prop} (h : Gives x result) (h₂ : Gives x result₂) : Gives x fun a => result a ∧ result₂ a :=
  fun s a s' hrun => ⟨h s a s' hrun, h₂ s a s' hrun⟩

end Gives

/-- A node can be expressed as an expression. -/
def Yields (o : Options) (n : Node) (e : Expr) : Prop := ∃ s s', expr o n s = .ok e s'

lemma gives_yields (o : Options) (n : Node) : Gives (expr o n) (Yields o n) := fun s _ s' hrun => ⟨s, s', hrun⟩

section Calls

variable {o : Options}

lemma gives_exprs (o : Options) (ns : List Node) : Gives (exprs o ns) (Forall₂ (Yields o) ns) := by
  induction ns with
  | nil => exact .pure .nil
  | cons n ns ih =>
    rw [exprs]
    exact (gives_yields o n).bind fun e he => ih.bind fun es hes => .pure (.cons he hes)

/-- What a call can become, by its form. -/
inductive Called (o : Options) (receiver : Node) (name : Text) (arguments : List Node) : Form → Expr → Prop
  | plain {callee : Expr} {es : List Expr} (hcallee : callee = .name name ∨ ∃ t ∈ o.hosts, callee = .host t)
      (hes : ∀ e ∈ es, ExprCut o.indent e) : Called o receiver name arguments .plain (.call callee es)
  | unary {op : Text} {r : Expr} (harguments : arguments = []) (hop : unaryOperator? name = some op)
      (hr : Yields o receiver r) : Called o receiver name arguments .operator (.unary op (grouped receiver r))
  | binary {op : Text} {a : Node} {r x : Expr} (harguments : arguments = [a]) (hop : binaryOperator? name = some op)
      (hr : Yields o receiver r) (ha : Yields o a x) :
      Called o receiver name arguments .operator (.binary (grouped receiver r) op (grouped a x))
  | construct {type : Text} {es : List Expr} (htype : type ∈ o.baseTypes) (hes : ∀ e ∈ es, ExprCut o.indent e) :
      Called o receiver name arguments .construct (.construct type es)
  | index {a : Node} {r x : Expr} (harguments : arguments = [a]) (hr : Yields o receiver r) (ha : Yields o a x) :
      Called o receiver name arguments .index (.index (grouped receiver r) x)
  | method {property : Text} {r : Expr} {es : List Expr} (hr : Yields o receiver r)
      (hes : ∀ e ∈ es, ExprCut o.indent e) :
      Called o receiver name arguments (.method property) (.call (.member (grouped receiver r) property) es)
  | setter {property : Text} {a : Node} {r x : Expr} (harguments : arguments = [a]) (hr : Yields o receiver r)
      (ha : Yields o a x) :
      Called o receiver name arguments (.setter property) (.assign (.member (grouped receiver r) property) x)
  | indexSetter {a b : Node} {r x y : Expr} (harguments : arguments = [a, b]) (hr : Yields o receiver r)
      (ha : Yields o a x) (hb : Yields o b y) :
      Called o receiver name arguments .indexSetter (.assign (.index (grouped receiver r) x) y)

variable (ho : o.Regular) {arguments : List Node} {blk : Node}

include ho

lemma gives_cutArguments (harguments : Forall₂ (Node.Alike lexical) arguments arguments) :
    Gives (exprs o arguments) fun es => ∀ e ∈ es, ExprCut o.indent e := by
  intro s es s' hrun
  exact forall_of_forall₂ (Gives.of_twin ((cutting ho).exprs_alike arguments harguments) s es s' hrun)

lemma gives_cutBlock (hblk : blk.Alike lexical blk) (yields : Bool) :
    Gives (blockArgument o blk yields) fun es => ∀ e ∈ es, ExprCut o.indent e := by
  intro s es s' hrun
  exact forall_of_forall₂ (Gives.of_twin ((cutting ho).blockArgument_alike blk hblk yields) s es s' hrun)

lemma gives_plainCall (receiver : Node) (name : Text)
    (harguments : Forall₂ (Node.Alike lexical) arguments arguments) (hblk : blk.Alike lexical blk) :
    Gives (plainCall o name arguments blk) (Called o receiver name arguments .plain) := by
  refine (gives_cutArguments ho harguments).bind fun es hes => (gives_cutBlock ho hblk true).bind fun fs hfs => ?_
  exact .pure (.plain (.inl rfl) (forall_mem_append.2 ⟨hes, hfs⟩))

lemma called_absent (span : Span) (name : Text) (harguments : Forall₂ (Node.Alike lexical) arguments arguments)
    (hblk : blk.Alike lexical blk) :
    Gives (expr o (.call span .absent name arguments blk)) (Called o .absent name arguments .plain) := by
  have hplain := gives_plainCall ho .absent name harguments hblk
  have hhost : ∀ {t : Text} {es : List Expr}, t ∈ o.hosts → (∀ e ∈ es, ExprCut o.indent e) →
      Gives (pure (.call (.host t) es)) (Called o .absent name arguments .plain) :=
    fun ht hes => .pure (.plain (.inr ⟨_, ht, rfl⟩) hes)
  have htimer : ∀ {f : List Expr} {delay : Expr}, (∀ e ∈ f, ExprCut o.indent e) → ExprCut o.indent delay →
      Gives (pure (.call (.host o.timer) [f.headD (.arrow [] []), delay]))
        (Called o .absent name arguments .plain) := by
    intro f delay hf hdelay
    refine hhost (by simp [Options.hosts]) (forall_mem_cons.2 ⟨?_, by simpa using hdelay⟩)
    cases f with
    | nil => exact (cutting ho).arrow [] .nil
    | cons g gs => exact hf g (by simp)
  rw [expr_call_absent]
  by_cases hputs : (name == "puts") = true
  · rw [if_pos hputs]
    exact (gives_cutArguments ho harguments).bind fun es hes => hhost (by simp [Options.hosts]) hes
  rw [if_neg hputs]
  by_cases hgrab : (name == "grab") = true
  · rw [if_pos hgrab]
    cases harguments with
    | nil => exact hplain
    | cons ha hrest =>
      cases hrest with
      | nil =>
        cases blk.isBlock with
        | true => exact hplain
        | false =>
          refine (Gives.of_twin ((cutting ho).expr_alike _ ha)).bind fun e he => ?_
          exact hhost (by simp [Options.hosts]) (forall_mem_singleton.2 he)
      | cons => exact hplain
  rw [if_neg hgrab]
  by_cases hwait : (name == "wait") = true
  · rw [if_pos hwait]
    cases harguments with
    | nil => exact (gives_cutBlock ho hblk false).bind fun f hf => htimer hf ((cutting ho).atom rfl)
    | cons ha hrest =>
      cases hrest with
      | nil =>
        refine (Gives.of_twin ((cutting ho).expr_alike _ ha)).bind fun e he => ?_
        exact (gives_cutBlock ho hblk false).bind fun f hf => htimer hf ((cutting ho).delayOf ha he)
      | cons => exact hplain
  rw [if_neg hwait]
  exact hplain

omit ho in
lemma called_methodCall {receiver : Node} {r : Expr} (hr : Yields o receiver r) (name : Text) {es : List Expr}
    (hyields : Forall₂ (Yields o) arguments es) (hes : ∀ e ∈ es, ExprCut o.indent e) :
    Called o receiver name arguments (methodForm name arguments) (methodCall (grouped receiver r) name es) := by
  cases hyields with
  | nil => exact .method hr hes
  | cons ha hrest =>
    cases hrest with
    | nil =>
      rw [methodForm, methodCall]
      split_ifs
      · exact .index rfl hr ha
      · exact .method hr hes
      · exact .setter rfl hr ha
      · exact .method hr hes
    | cons hb hrest =>
      cases hrest with
      | nil =>
        rw [methodForm, methodCall]
        split_ifs
        · exact .indexSetter rfl hr ha hb
        · exact .method hr hes
      | cons => exact .method hr hes

lemma called_call (span : Span) (receiver : Node) (name : Text)
    (harguments : Forall₂ (Node.Alike lexical) arguments arguments) (hblk : blk.Alike lexical blk) :
    Gives (expr o (.call span receiver name arguments blk))
      (Called o receiver name arguments (form o receiver name arguments blk)) := by
  cases habsent : receiver.isAbsent with
  | true =>
    have heq : receiver = .absent := by cases receiver <;> first | rfl | cases habsent
    rw [form, if_pos habsent, heq]
    exact called_absent ho span name harguments hblk
  | false =>
    -- the cases come in the order in which the generator tries them: an operator generates its operands itself,
    -- everything else generates the arguments first
    have hcut := (gives_cutArguments ho harguments).and (gives_exprs o arguments)
    rw [expr_call o span habsent]
    by_cases hoperator : isOperator receiver name arguments blk
    · have hform : form o receiver name arguments blk = .operator := by simp [form, habsent, hoperator]
      rw [hform, if_pos hoperator]
      cases arguments with
      | nil =>
        obtain ⟨op, hop⟩ := exists_unaryOperator hoperator
        rw [hop]
        exact (gives_yields o receiver).bind fun r hr => .pure (.unary rfl hop hr)
      | cons a rest =>
        obtain ⟨op, hop⟩ := exists_binaryOperator hoperator
        obtain rfl : rest = [] := by
          simp only [isOperator, Bool.and_eq_true] at hoperator
          exact (by simpa using hoperator.2 : (binaryOperator? name).isSome ∧ rest = []).2
        rw [hop]
        exact (gives_yields o receiver).bind fun r hr => (gives_yields o a).bind fun x hx =>
          .pure (.binary rfl hop hr hx)
    rw [if_neg hoperator]
    refine hcut.bind fun es hes => ?_
    have hwithBlock : Gives (blockArgument o blk true) fun fs => ∀ e ∈ es ++ fs, ExprCut o.indent e :=
      fun s fs s' hrun => forall_mem_append.2 ⟨hes.1, gives_cutBlock ho hblk true s fs s' hrun⟩
    cases htype : constructed? o receiver name with
    | some type =>
      have hform : form o receiver name arguments blk = .construct := by simp [form, habsent, hoperator, htype]
      rw [hform]
      exact hwithBlock.bind fun fs hfs => .pure (.construct (mem_baseTypes_of_constructed? htype) hfs)
    | none =>
      refine (gives_yields o receiver).bind fun r hr => ?_
      cases hblock : blk.isBlock with
      | true =>
        have hform : form o receiver name arguments blk = .method name := by
          simp [form, habsent, hoperator, htype, hblock]
        rw [hform]
        exact hwithBlock.bind fun fs hfs => .pure (.method hr hfs)
      | false =>
        have hform : form o receiver name arguments blk = methodForm name arguments := by
          simp [form, habsent, hoperator, htype, hblock]
        rw [hform]
        exact .pure (called_methodCall hr name hes.2 hes.1)

end Calls

/-- What a conditional can become. -/
inductive Chosen (o : Options) (condition : Node) (negated : Bool) : List Node → List Node → Expr → Prop
  | single {t : Node} {c x : Expr} (hc : Yields o condition c) (ht : Yields o t x) :
      Chosen o condition negated [t] [] (.conditional (conditionOf condition negated c) (grouped t x) .null)
  | both {t u : Node} {c x y : Expr} (hc : Yields o condition c) (ht : Yields o t x) (hu : Yields o u y) :
      Chosen o condition negated [t] [u] (.conditional (conditionOf condition negated c) (grouped t x) (grouped u y))

lemma chosen_cond (o : Options) (span : Span) (condition : Node) (negated : Bool)
    (consequence alternative : List Node) :
    Gives (expr o (.cond span condition negated consequence alternative))
      (Chosen o condition negated consequence alternative) := by
  obtain _ | ⟨t, _ | ⟨_, _⟩⟩ := consequence
  · exact .refuse _
  · obtain _ | ⟨u, _ | ⟨_, _⟩⟩ := alternative
    · rw [expr]
      exact (gives_yields o condition).bind fun c hc => (gives_yields o t).bind fun x hx => .pure (.single hc hx)
    · rw [expr]
      exact (gives_yields o condition).bind fun c hc => (gives_yields o t).bind fun x hx =>
        (gives_yields o u).bind fun y hy => .pure (.both hc hx hy)
    · exact .refuse _
  · exact .refuse _

/-! ## Edges of texts -/

/-- What decides whether the text of an expression can stand beside something. -/
structure Edges where
  /-- It has an assignment or a conditional outside its brackets. -/
  loose : Bool
  /-- It ends with a whole number. -/
  whole : Bool
  /-- It starts with a minus sign. -/
  minus : Bool
deriving DecidableEq, Repr

namespace Edges

/-- The edges of brackets, and of most other things. -/
def closed : Edges := ⟨false, false, false⟩

/-- In parentheses if they are needed. -/
def grouped (needed : Bool) (x : Edges) : Edges := if needed then closed else x

/-- In parentheses if a minus sign would take in what follows. -/
def received (x : Edges) : Edges := if x.minus then closed else x

/-- Behind an operator. -/
def signed (minus : Bool) (x : Edges) : Edges := ⟨x.loose, x.whole, minus⟩

/-- With brackets behind it. -/
def bracketed (x : Edges) : Edges := ⟨x.loose, false, x.minus⟩

/-- With an operator between the two. -/
def binary (left right : Edges) : Edges := ⟨left.loose || right.loose, right.whole, left.minus⟩

/-- With an assignment or a conditional between the first and the last of its parts. -/
def opened (first last : Edges) : Edges := ⟨true, last.whole, first.minus⟩

end Edges

/-- A text is cut like an expression with these edges. -/
structure Edged (t : Text) (x : Edges) : Prop where
  reads : ∃ last, Js.Reads t x.loose last ∧ last.isWhole = x.whole
  minus : ("-" : Text).isPrefixOf t = x.minus

section Edged

variable {t u c : Text} {x y z : Edges}

lemma minus_of_first (h : t ≠ [] ∧ ∀ b ∈ t.head?, prolongs b = false) : ("-" : Text).isPrefixOf t = false := by
  obtain ⟨hne, hfirst⟩ := h
  obtain ⟨b, rest, rfl⟩ := exists_cons_of_ne_nil hne
  have hminus : Text.ofString "-" = ['-'.toUInt8] := by decide
  have hb : ('-'.toUInt8 == b) = false := by
    refine beq_eq_false_iff_ne.2 ?_
    rintro rfl
    exact absurd (hfirst _ rfl) (by decide)
  rw [hminus, isPrefixOf_cons_cons, hb, Bool.false_and]

namespace Edged

lemma ne_nil (h : Edged t x) : t ≠ [] := by
  obtain ⟨last, hreads, -⟩ := h.reads
  exact hreads.ne_nil

lemma inside (h : Edged t x) : Js.Inside 1 t := by
  obtain ⟨last, hreads, -⟩ := h.reads
  exact hreads.inside 0

lemma minus_append (h : Edged t x) (u : Text) : ("-" : Text).isPrefixOf (t ++ u) = x.minus := by
  obtain ⟨d, rest, rfl⟩ := exists_cons_of_ne_nil h.ne_nil
  rw [← h.minus]
  rfl

lemma closed {last : Js.Lexeme} (h : Js.Reads t false last) (hwhole : last.isWhole = false)
    (hminus : ("-" : Text).isPrefixOf t = false) : Edged t .closed :=
  ⟨⟨last, h, hwhole⟩, hminus⟩

lemma parenthesised (h : Edged t x) : Edged ("(" ++ t ++ ")") .closed := by
  obtain ⟨last, hreads, -⟩ := h.reads
  exact closed (reads_group hreads) rfl rfl

lemma grouped {e : Expr} {unit : Text} {depth : Nat} (o : Options) (h : Edged (e.text unit depth) x) (n : Node) :
    Edged ((Script.grouped n e).text unit depth) (x.grouped (isEnclosed o n)) := by
  rw [Script.grouped, needsGroup_eq_isEnclosed o]
  cases isEnclosed o n with
  | true => exact h.parenthesised
  | false => exact h

lemma receiverText (h : Edged t x) : Edged (Script.receiverText t) x.received := by
  rw [Script.receiverText, Edges.received, h.minus]
  split_ifs
  · exact h.parenthesised
  · exact h

lemma unary {p : Text} (hp : p ∈ unaryOperators) (h : Edged t x) : Edged (p ++ t) (x.signed (p == "-")) := by
  have htable : ∀ p ∈ unaryOperators, p ≠ [] ∧ ("-" : Text).isPrefixOf p = (p == "-") := by decide
  obtain ⟨last, hreads, hwhole⟩ := h.reads
  refine ⟨⟨last, hreads.sign hp, hwhole⟩, ?_⟩
  obtain ⟨hne, hminus⟩ := htable p hp
  obtain ⟨d, rest, rfl⟩ := exists_cons_of_ne_nil hne
  exact hminus

lemma binary {p : Text} (hp : isInfix p) (hloose : (Js.Lexeme.punct p).isLoose = false)
    (h : Edged t x) (hu : Edged u y) : Edged (t ++ " " ++ p ++ " " ++ u) (x.binary y) := by
  obtain ⟨_, hleft, -⟩ := h.reads
  obtain ⟨last, hright, hwhole⟩ := hu.reads
  have hreads := hleft.between hp hright
  rw [hloose, Bool.false_or] at hreads
  refine ⟨⟨last, hreads, hwhole⟩, ?_⟩
  rw [append_assoc, append_assoc, append_assoc]
  exact h.minus_append _

lemma call (h : Edged t x) (hu : Js.Inside 1 u) : Edged (t ++ "(" ++ u ++ ")") x.bracketed := by
  obtain ⟨_, hreads, -⟩ := h.reads
  refine ⟨⟨_, reads_call hreads hu, rfl⟩, ?_⟩
  rw [append_assoc, append_assoc]
  exact h.minus_append _

lemma index (h : Edged t x) (hu : Js.Inside 1 u) : Edged (t ++ "[" ++ u ++ "]") x.bracketed := by
  obtain ⟨_, hreads, -⟩ := h.reads
  refine ⟨⟨_, reads_index hreads hu, rfl⟩, ?_⟩
  rw [append_assoc, append_assoc]
  exact h.minus_append _

/-- An access to a property, which a whole number may take in. -/
lemma member (h : Edged t x) (property : Text) :
    ∃ whole, Edged (t ++ Script.member property) ⟨x.loose, whole, x.minus⟩ := by
  obtain ⟨_, hreads, -⟩ := h.reads
  obtain ⟨last, hmember⟩ := hreads.member property
  exact ⟨last.isWhole, ⟨last, hmember, rfl⟩, h.minus_append _⟩

lemma member_word {w : Text} (hw : Js.IsWord w) (property : Text) : Edged (w ++ Script.member property) .closed := by
  have hfirst := minus_of_first ((spells_word hw).first (by simp))
  have hword : Edged w .closed := closed (reads_word hw) rfl hfirst
  refine ⟨?_, hword.minus_append _⟩
  rw [Script.member]
  split_ifs with hproperty
  · exact ⟨_, (reads_word hw).dot rfl (isWord_of_isProperty hproperty), rfl⟩
  · exact ⟨_, (reads_word hw).enclosed (o := '[') (c := ']') (by decide) ((reads_quote property).inside 0), rfl⟩

lemma assign (h : Edged t x) (hu : Edged u y) : Edged (t ++ " = " ++ u) (x.opened y) := by
  obtain ⟨_, hleft, -⟩ := h.reads
  obtain ⟨last, hright, hwhole⟩ := hu.reads
  refine ⟨⟨last, reads_assign hleft hright, hwhole⟩, ?_⟩
  rw [append_assoc]
  exact h.minus_append _

lemma conditional (hc : Edged c x) (h : Edged t y) (hu : Edged u z) :
    Edged (c ++ " ? " ++ t ++ " : " ++ u) (x.opened z) := by
  obtain ⟨_, hcondition, -⟩ := hc.reads
  obtain ⟨_, hconsequence, -⟩ := h.reads
  obtain ⟨last, halternative, hwhole⟩ := hu.reads
  refine ⟨⟨last, reads_conditional hcondition hconsequence halternative, hwhole⟩, ?_⟩
  rw [append_assoc, append_assoc, append_assoc]
  exact hc.minus_append _

lemma word {w : Text} (h : Js.IsWord w) : Edged w .closed :=
  closed (reads_word h) rfl (minus_of_first ((spells_word h).first (by simp)))

lemma string (v : Text) : Edged (quote v) .closed :=
  closed (reads_quote v) rfl (minus_of_first ((spells_quote v).first (by simp)))

lemma signed {loose whole : Bool} (h : Edged t ⟨loose, whole, false⟩) (negative : Bool) :
    Edged (signText negative ++ t) ⟨loose, whole, negative⟩ := by
  cases negative with
  | true => exact h.unary (p := "-") (by decide)
  | false => exact h

end Edged

end Edged

/-! ### Numbers -/

section Numbers

variable {t : Text}

lemma digits_of_reaches_whole {v : Text} (h : Js.Reaches .blank t (.number .whole v)) : ∀ b ∈ v, isDigit b := by
  refine Js.Reaches.number_induction (I := fun s v => s = .whole → ∀ b ∈ v, isDigit b)
    (fun b hb _ => forall_mem_singleton.2 hb) (fun r s u b hu hb hs => ?_) h (by simp) rfl
  -- a number only grows to a whole one from a whole one, by a digit
  obtain ⟨hdigit, hr⟩ : isDigit b ∧ r = .whole := by
    subst hs
    rw [Js.Stage.next.eq_def] at hb
    split_ifs at hb with hdigit
    · exact ⟨hdigit, by cases r <;> simp_all⟩
    all_goals cases hb
  exact forall_mem_append.2 ⟨hu hr, forall_mem_singleton.2 hdigit⟩

lemma exists_not_digit_literalDecimal (d : Decimal) : ∃ b ∈ literalDecimal d, isDigit b = false := by
  have hexponent : ∀ {w : Text} {k : Int}, ∃ b ∈ w ++ exponentText k, isDigit b = false := by
    intro w k
    obtain ⟨sign, ds, -, -, heq⟩ := exponentText_eq k
    exact ⟨'e', by simp [heq], by decide⟩
  have hpoint : '.'.toUInt8 ∈ Text.ofString ".0" := by decide
  unfold literalDecimal
  dsimp only
  split_ifs with hneeds hmem
  · rw [scientific.eq_def]
    split
    · simp_all [needsExponent]
    · exact hexponent
    · exact hexponent
  · exact ⟨'.', by simpa using hmem, by decide⟩
  · exact ⟨'.', mem_append_right _ hpoint, by decide⟩

lemma edged_integer (v : Int64) : Edged (Text.ofInt v.toInt) ⟨false, true, v < 0⟩ := by
  have hreaches := (isDigits_ofNat v.toInt.natAbs).reaches
  have hnumber : Edged (Text.ofNat v.toInt.natAbs) ⟨false, true, false⟩ :=
    ⟨⟨_, reads_number rfl hreaches, rfl⟩, minus_of_first ((spells_number (isNumeral_ofNat _)).first (by simp))⟩
  have hsign : decide (v < 0) = decide (v.toInt < 0) := by simp [Int64.lt_iff_toInt_lt]
  rw [ofInt_eq, hsign]
  exact hnumber.signed _

lemma edged_float (x : Binary64) : Edged (floatLiteral x) ⟨false, false, x.isNegative && !x.isNaN⟩ := by
  cases hx : x.value with
  | nan =>
    have hsign : (x.isNegative && !x.isNaN) = false := by simp [Binary64.isNaN, hx]
    have htext : floatLiteral x = Text.ofString "NaN" := by simp [floatLiteral, hx]
    rw [hsign, htext]
    exact .word (by decide)
  | infinite negative =>
    have hsign : (x.isNegative && !x.isNaN) = negative := by
      simp [Binary64.isNaN, hx, Binary64.isNegative_of_infinite hx]
    have htext : floatLiteral x = signText negative ++ "Infinity" := by simp [floatLiteral, hx]
    rw [hsign, htext]
    exact (Edged.word (by decide)).signed negative
  | finite negative m q =>
    have hsign : (x.isNegative && !x.isNaN) = negative := by
      simp [Binary64.isNaN, hx, Binary64.isNegative_of_finite hx]
    have htext : floatLiteral x = signText negative ++ literalDecimal (.shortest m q) := by
      simp [floatLiteral, hx]
    obtain ⟨stage, hstage, hreaches⟩ := isNumeral_literalDecimal (digits_shortest m q)
    -- a literal has a point or an exponent, so its last stage is not that of digits alone
    have hwhole : (Js.Lexeme.number stage (literalDecimal (Decimal.shortest m q))).isWhole = false := by
      cases stage with
      | whole =>
        obtain ⟨b, hmem, hb⟩ := exists_not_digit_literalDecimal (.shortest m q)
        rw [digits_of_reaches_whole hreaches b hmem] at hb
        cases hb
      | _ => rfl
    have hnumber : Edged (literalDecimal (.shortest m q)) .closed :=
      .closed (reads_number hstage hreaches) hwhole
        (minus_of_first ((spells_number ⟨stage, hstage, hreaches⟩).first (by simp)))
    rw [hsign, htext]
    exact hnumber.signed negative

end Numbers

/-! ## Edges of nodes -/

/-- The edges of a call, from those of its receiver as an operand and from those of its arguments, each with whether
it needs parentheses inside a larger expression. -/
def Form.edges (name : Text) (receiver : Edges) (arguments : List (Bool × Edges)) : Form → Edges
  | .plain | .construct => .closed
  | .operator =>
    match arguments with
    | [] => receiver.signed (name == "-@")
    | (needed, a) :: _ => receiver.binary (a.grouped needed)
  | .index | .method _ => receiver.received.bracketed
  | .setter _ | .indexSetter => receiver.received.opened ((arguments.map Prod.snd).getLastD .closed)

mutual

/-- The edges of the expression of a node. -/
def edges (o : Options) (n : Node) : Edges :=
  match n with
  | .integer _ v => ⟨false, true, v < 0⟩
  | .float _ x => ⟨false, false, x.isNegative && !x.isNaN⟩
  | .program _ body => ((allEdges o body).map Prod.snd).headD .closed
  | .cond _ condition negated _ alternative =>
    let test := edges o condition
    .opened (if negated then (test.grouped (isEnclosed o condition)).signed false else test)
      (((allEdges o alternative).map fun a => a.2.grouped a.1).headD .closed)
  | .call _ receiver name arguments blk =>
    (form o receiver name arguments blk).edges name ((edges o receiver).grouped (isEnclosed o receiver))
      (allEdges o arguments)
  | _ => .closed

/-- The edges of some nodes, each with whether it needs parentheses inside a larger expression. -/
def allEdges (o : Options) (ns : List Node) : List (Bool × Edges) :=
  match ns with
  | [] => []
  | n :: rest => (isEnclosed o n, edges o n) :: allEdges o rest

end

/-! ### The edges of generated code -/

section Nodes

variable {o : Options} {unit : Text} {depth : Nat} {n : Node} {e : Expr}

lemma edged_variableExpr (name : Text) (scope : Scope) : Edged ((variableExpr name scope).text unit depth) .closed := by
  cases scope with
  | object => exact .member_word (w := "this") (by decide) _
  | global => exact .member_word (w := "globalThis") (by decide) _
  | «local» | constant => exact .word (isWord_binding name)

lemma edged_conditionOf (o : Options) {x : Edges} (h : Edged (e.text unit depth) x) (n : Node) (negated : Bool) :
    Edged ((conditionOf n negated e).text unit depth)
      (if negated then (x.grouped (isEnclosed o n)).signed false else x) := by
  cases negated with
  | false => exact h
  | true => exact (h.grouped o n).unary (p := "!") (by decide)

lemma edged_literalText (hunit : ∀ b ∈ unit, isBlank b) {opening closing : UInt8}
    (hpair : (opening, closing) ∈ bracketPairs) {pad : Text} (hpad : pad = [] ∨ pad = " ") {es : List EntryText}
    (h : ∀ e ∈ es, e.Cut) : Edged (literalText unit depth [opening] [closing] pad es) .closed := by
  have htable : (bracketPairs.all fun p => '-'.toUInt8 != p.1) := by decide
  have hopening : ('-'.toUInt8 == opening) = false := by simpa using all_eq_true.1 htable _ hpair
  refine .closed (reads_literalText hunit depth hpair hpad h) rfl ?_
  have hminus : Text.ofString "-" = ['-'.toUInt8] := by decide
  rw [hminus, literalText]
  split_ifs <;> simp only [cons_append, isPrefixOf_cons_cons, hopening, Bool.false_and]

lemma edged_path {t : Text} (h : IsPath t) : Edged t .closed := by
  obtain ⟨w, hreads⟩ := reads_path h
  refine .closed hreads rfl ?_
  clear hreads
  induction h with
  | word h => exact (Edged.word h).minus
  | @member t w h _ ih =>
    obtain ⟨v, hreads⟩ := reads_path h
    rw [append_assoc]
    exact (Edged.closed hreads rfl ih).minus_append _

lemma beq_minus_of_unaryOperator? {name op : Text} (h : unaryOperator? name = some op) :
    (op == "-") = (name == "-@") := by
  rw [unaryOperator?] at h
  split_ifs at h with h₁ h₂ h₃ h₄ <;> rw [← Option.some.inj h]
  · rw [h₁]
    decide
  all_goals
    rw [Bool.not_eq_true] at h₁
    rw [h₁]
    decide

/-- The edges of what a conditional becomes, from those of its parts. -/
lemma edged_chosen {condition : Node} {negated : Bool} {consequence alternative : List Node}
    (hparts : ∀ m ∈ condition :: (consequence ++ alternative), ∀ e, Yields o m e →
      ∀ depth, Edged (e.text o.indent depth) (edges o m))
    (h : Chosen o condition negated consequence alternative e) (span : Span) (depth : Nat) :
    Edged (e.text o.indent depth) (edges o (.cond span condition negated consequence alternative)) := by
  cases h with
  | @single t _ _ hc ht =>
    have htest := edged_conditionOf o (hparts condition (by simp) _ hc depth) condition negated
    have hfirst := (hparts t (by simp) _ ht depth).grouped o t
    exact htest.conditional hfirst (.word (w := "null") (by decide))
  | @both t u _ _ _ hc ht hu =>
    have htest := edged_conditionOf o (hparts condition (by simp) _ hc depth) condition negated
    have hfirst := (hparts t (by simp) _ ht depth).grouped o t
    have hsecond := (hparts u (by simp) _ hu depth).grouped o u
    exact htest.conditional hfirst hsecond

variable (ho : o.Regular)

include ho

lemma gives_edgedArrow (params : List Text) {body : List Node} (hbody : Forall₂ (Node.Alike lexical) body body) :
    Gives (arrowOf params body (statements o body true)) fun e => ∀ depth, Edged (e.text o.indent depth) .closed := by
  have hstatements := (cutting ho).statements_alike body hbody true
  refine (Gives.any _).bind fun s _ => ?_
  refine (Gives.of_twin (hstatements.inFrame _ _)).bind fun ss hss => .pure fun depth => ?_
  have hbody := forall_of_forall₂ ((cutting ho).hoistStatement (hoisted s.frames params body) hss)
  have hlines := gap_allLines hbody (depth + 1)
  refine .closed (reads_arrowText ho.indent depth params hlines) rfl ?_
  rw [Expr.text, arrowText]
  split_ifs <;> rfl

/-- The edges of what a call becomes, from those of its parts. -/
lemma edged_called {receiver : Node} {name : Text} {arguments : List Node} {f : Form}
    (hparts : ∀ m ∈ receiver :: arguments, ∀ e, Yields o m e → ∀ depth, Edged (e.text o.indent depth) (edges o m))
    (h : Called o receiver name arguments f e) (depth : Nat) :
    Edged (e.text o.indent depth)
      (f.edges name ((edges o receiver).grouped (isEnclosed o receiver)) (allEdges o arguments)) := by
  -- the receiver as it stands in front of a property or brackets
  have hobject : ∀ {r}, Yields o receiver r → Edged (receiverText ((grouped receiver r).text o.indent depth))
      ((edges o receiver).grouped (isEnclosed o receiver)).received :=
    fun hr => ((hparts receiver (by simp) _ hr depth).grouped o receiver).receiverText
  cases h with
  | plain hcallee hes =>
    rcases hcallee with rfl | ⟨t, ht, rfl⟩
    · exact (Edged.word (isWord_binding name)).call (inside_arguments hes depth)
    · exact (edged_path (ho.hosts t ht)).call (inside_arguments hes depth)
  | unary harguments hop hr =>
    subst harguments
    have hunary := ((hparts receiver (by simp) _ hr depth).grouped o receiver).unary (unaryOperator?_eq hop).2
    rwa [beq_minus_of_unaryOperator? hop] at hunary
  | @binary _ a _ _ harguments hop hr ha =>
    subst harguments
    have hleft := (hparts receiver (by simp) _ hr depth).grouped o receiver
    have hright := (hparts a (by simp) _ ha depth).grouped o a
    obtain ⟨hbetween, hloose⟩ := isInfix_of_binaryOperator? hop
    exact hleft.binary hbetween hloose hright
  | construct htype hes =>
    obtain ⟨w, hreads⟩ := reads_path (ho.baseTypes _ htype)
    exact .closed (reads_construct hreads (inside_arguments hes depth)) rfl rfl
  | index harguments hr ha =>
    subst harguments
    exact (hobject hr).index (hparts _ (by simp) _ ha depth).inside
  | @method property _ _ hr hes =>
    obtain ⟨whole, hmember⟩ := (hobject hr).member property
    exact hmember.call (inside_arguments hes depth)
  | @setter property _ _ _ harguments hr ha =>
    subst harguments
    obtain ⟨whole, hmember⟩ := (hobject hr).member property
    exact hmember.assign (hparts _ (by simp) _ ha depth)
  | indexSetter harguments hr ha hb =>
    subst harguments
    have helement := (hobject hr).index (hparts _ (by simp) _ ha depth).inside
    exact helement.assign (hparts _ (by simp) _ hb depth)

/-- The text of an expression has the edges of its node. -/
lemma edged_expr (n : Node) (hn : n.Alike lexical n) :
    Gives (expr o n) fun e => ∀ depth, Edged (e.text o.indent depth) (edges o n) := by
  match n with
  | .absent => exact .pure fun _ => .word (w := "null") (by decide)
  | .string _ value | .symbol _ value => exact .pure fun _ => .string value
  | .integer _ v => exact .pure fun _ => edged_integer v
  | .float _ x => exact .pure fun _ => edged_float x
  | .boolean _ value =>
    refine .pure fun _ => ?_
    cases value with
    | true => exact .word (w := "true") (by decide)
    | false => exact .word (w := "false") (by decide)
  | .nil _ => exact .pure fun _ => .word (w := "null") (by decide)
  | .self _ => exact .pure fun _ => .word (w := "this") (by decide)
  | .var _ name scope => exact .pure fun _ => edged_variableExpr name scope
  | .array _ elements =>
    cases hn with
    | array _ helements =>
      refine (Gives.of_twin ((cutting ho).elementEntries_alike elements helements)).bind fun es hes =>
        .pure fun depth => ?_
      exact edged_literalText ho.indent (by decide) (.inl rfl) (cut_entries (forall_of_forall₂ hes) (depth + 1))
  | .hash _ pairs =>
    cases hn with
    | hash _ hpairs =>
      refine (Gives.of_twin ((cutting ho).pairEntries_alike pairs hpairs)).bind fun es hes => .pure fun depth => ?_
      exact edged_literalText ho.indent (by decide) (.inr rfl) (cut_entries (forall_of_forall₂ hes) (depth + 1))
  | .block _ params body =>
    cases hn with
    | block _ _ hbody => exact gives_edgedArrow ho params hbody
  | .program _ [only] =>
    cases hn with
    | program _ hbody =>
      cases hbody with
      | cons honly _ => exact edged_expr only honly
  | .program _ [] | .program _ (_ :: _ :: _) => exact .refuse _
  | .cond span condition negated consequence alternative =>
    cases hn with
    | cond _ _ hcondition hconsequence halternative =>
      have hparts : ∀ m ∈ condition :: (consequence ++ alternative), ∀ e, Yields o m e →
          ∀ depth, Edged (e.text o.indent depth) (edges o m) := by
        rintro m hm e ⟨s, s', hrun⟩
        rcases mem_cons.1 hm with heq | hm
        · rw [heq] at hrun ⊢
          exact edged_expr condition hcondition s e s' hrun
        rcases mem_append.1 hm with hm | hm
        · exact edged_expr m (forall₂_same.1 hconsequence m hm) s e s' hrun
        · exact edged_expr m (forall₂_same.1 halternative m hm) s e s' hrun
      intro s e s' hrun
      exact edged_chosen hparts (chosen_cond o span condition negated consequence alternative s e s' hrun) span
  | .call span receiver name arguments blk =>
    cases hn with
    | call _ _ hreceiver harguments hblk =>
      have hparts : ∀ m ∈ receiver :: arguments, ∀ e, Yields o m e →
          ∀ depth, Edged (e.text o.indent depth) (edges o m) := by
        rintro m hm e ⟨s, s', hrun⟩
        rcases mem_cons.1 hm with heq | hm
        · rw [heq] at hrun ⊢
          exact edged_expr receiver hreceiver s e s' hrun
        · exact edged_expr m (forall₂_same.1 harguments m hm) s e s' hrun
      intro s e s' hrun depth
      exact edged_called ho hparts (called_call ho span receiver name harguments hblk s e s' hrun) depth
  | .assignment .. | .loop .. | .method .. | .ret .. | .comment .. | .unknown .. => exact .refuse _
termination_by sizeOf n

end Nodes

end Transpiler.Script
