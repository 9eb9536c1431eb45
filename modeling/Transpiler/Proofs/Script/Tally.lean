import Transpiler.Proofs.Script.Emission

/-!
# What the generator counts

The generator counts the comments it makes. An expression that cannot be completed is dropped, with the
comments inside it, and these stay counted although no text shows them. A survey of a program tells beforehand,
from the program alone, which expressions cannot be completed, how many comments are shown and how many are
lost that way.
-/

namespace Transpiler.Script

/-! ## Comments of a tree -/

mutual

/-- The tags of the comments in an expression, in the order of its text. -/
def Expr.remarks (e : Expr) : List Text :=
  match e with
  | .member object _ => object.remarks
  | .index object key => object.remarks ++ key.remarks
  | .call callee arguments => callee.remarks ++ Expr.allRemarks arguments
  | .construct _ arguments => Expr.allRemarks arguments
  | .unary _ operand => operand.remarks
  | .binary left _ right => left.remarks ++ right.remarks
  | .conditional condition consequence alternative =>
    condition.remarks ++ consequence.remarks ++ alternative.remarks
  | .assign target value => target.remarks ++ value.remarks
  | .group inner => inner.remarks
  | .arrow _ body => Stmt.allRemarks body
  | .array entries => Entry.allRemarks entries
  | .object entries => Entry.allRemarks entries
  | .null | .this | .boolean _ | .integer _ | .float _ | .delay _ | .string _ | .name _ | .host _ => []

/-- The remarks in expressions. -/
def Expr.allRemarks (es : List Expr) : List Text :=
  match es with
  | [] => []
  | e :: rest => e.remarks ++ Expr.allRemarks rest

/-- The remarks in an entry. -/
def Entry.remarks (e : Entry) : List Text :=
  match e with
  | .value e => e.remarks
  | .named _ e => e.remarks
  | .computed key e => key.remarks ++ e.remarks
  | .comment tag => [tag]

/-- The remarks in entries. -/
def Entry.allRemarks (es : List Entry) : List Text :=
  match es with
  | [] => []
  | e :: rest => e.remarks ++ Entry.allRemarks rest

/-- The remarks in a statement. -/
def Stmt.remarks (s : Stmt) : List Text :=
  match s with
  | .comment tag => [tag]
  | .hoist _ | .leave => []
  | .assign _ target _ value => target.remarks ++ value.remarks
  | .expr e => e.remarks
  | .ret e => e.remarks
  | .branch condition body alternative =>
    condition.remarks ++ Stmt.allRemarks body ++ alternative.remarks
  | .loop condition body => condition.remarks ++ Stmt.allRemarks body
  | .function _ _ body => Stmt.allRemarks body

/-- The remarks in an alternative. -/
def Alternative.remarks (a : Alternative) : List Text :=
  match a with
  | .none => []
  | .otherwise body => Stmt.allRemarks body
  | .elif condition body rest => condition.remarks ++ Stmt.allRemarks body ++ rest.remarks

/-- The remarks in statements. -/
def Stmt.allRemarks (ss : List Stmt) : List Text :=
  match ss with
  | [] => []
  | s :: rest => s.remarks ++ Stmt.allRemarks rest

end

@[simp] lemma Expr.allRemarks_append (es es' : List Expr) :
    Expr.allRemarks (es ++ es') = Expr.allRemarks es ++ Expr.allRemarks es' := by
  induction es with
  | nil => rfl
  | cons e rest ih => simp [Expr.allRemarks, ih]

@[simp] lemma Stmt.allRemarks_append (ss ss' : List Stmt) :
    Stmt.allRemarks (ss ++ ss') = Stmt.allRemarks ss ++ Stmt.allRemarks ss' := by
  induction ss with
  | nil => rfl
  | cons s rest ih => simp [Stmt.allRemarks, ih]

@[simp] lemma remarks_grouped (n : Node) (e : Expr) : (grouped n e).remarks = e.remarks := by
  rw [grouped]
  split_ifs <;> rfl

@[simp] lemma remarks_conditionOf (n : Node) (negated : Bool) (e : Expr) :
    (conditionOf n negated e).remarks = e.remarks := by
  cases negated
  · rfl
  · exact remarks_grouped n e

@[simp] lemma remarks_variableExpr (name : Text) (scope : Scope) : (variableExpr name scope).remarks = [] := by
  cases scope <;> rfl

@[simp] lemma remarks_methodCall (object : Expr) (name : Text) (arguments : List Expr) :
    (methodCall object name arguments).remarks = object.remarks ++ Expr.allRemarks arguments := by
  rw [methodCall.eq_def]
  split
  · split_ifs <;> simp [Expr.remarks, Expr.allRemarks]
  · split_ifs <;> simp [Expr.remarks, Expr.allRemarks]
  · simp [Expr.remarks]

@[simp] lemma allRemarks_hoistStatement (names : List Text) : Stmt.allRemarks (hoistStatement names) = [] := by
  rw [hoistStatement]
  split_ifs <;> rfl

lemma remarks_assignmentOf (name : Text) (scope : Scope) (operator : Text) (declaration : Option Declaration)
    (value : Expr) (yields : Bool) :
    Stmt.allRemarks (assignmentOf name scope operator declaration value yields) = value.remarks := by
  cases yields <;> simp [assignmentOf, Stmt.allRemarks, Stmt.remarks]

/-! ## Surveys -/

/-- What is known about a step of the generator beforehand. -/
structure Survey where
  /-- The step fails. -/
  fails : Bool
  /-- The comments in what it gives. -/
  shown : Nat
  /-- The comments that are counted but dropped again. -/
  lost : Nat
deriving DecidableEq

namespace Survey

/-- A step that makes no comments. -/
def silent : Survey := ⟨false, 0, 0⟩

/-- A node that fails. -/
def failing : Survey := ⟨true, 0, 0⟩

/-- All the comments that are counted. -/
def counted (v : Survey) : Nat := v.shown + v.lost

/-- One step after the other, unless the first fails. -/
def next (v w : Survey) : Survey := if v.fails then v else ⟨w.fails, v.shown + w.shown, v.lost + w.lost⟩

/-- What the step gives is dropped. -/
def dropped (v : Survey) : Survey := ⟨false, 0, v.counted⟩

/-- A comment takes the place of what cannot be completed. -/
def orComment (v : Survey) : Survey := if v.fails then ⟨false, 1, v.counted⟩ else v

/-- If the first step fails, it is dropped and the second is taken. -/
def orElse (v w : Survey) (rest : Survey) : Survey := if v.fails then v.dropped.next w else v.next rest

@[simp] lemma fails_orComment (v : Survey) : v.orComment.fails = false := by
  rw [orComment]
  split_ifs with h
  · rfl
  · exact Bool.eq_false_iff.2 h

variable {v : Survey}

lemma orComment_of_not_fails (h : v.fails = false) : v.orComment = v := if_neg (by simp [h])

lemma orElse_of_not_fails (h : v.fails = false) (w rest : Survey) : v.orElse w rest = v.next rest :=
  if_neg (by simp [h])

lemma orElse_of_fails (h : v.fails) (w rest : Survey) : v.orElse w rest = v.dropped.next w := if_pos h

lemma orComment_of_fails (h : v.fails) : v.orComment = ⟨false, 1, v.counted⟩ := if_pos h

@[simp] lemma next_silent (v : Survey) : v.next silent = v := by
  obtain ⟨fails, shown, lost⟩ := v
  cases fails <;> rfl

@[simp] lemma silent_next (v : Survey) : silent.next v = v := by
  simp [next, silent]

lemma next_of_fails (h : v.fails) (w : Survey) : v.next w = v := if_pos h

lemma next_of_not_fails (h : v.fails = false) (w : Survey) :
    v.next w = ⟨w.fails, v.shown + w.shown, v.lost + w.lost⟩ := if_neg (by simp [h])

lemma counted_both (v w : Survey) : counted ⟨w.fails, v.shown + w.shown, v.lost + w.lost⟩ = v.counted + w.counted :=
  Nat.add_add_add_comm v.shown w.shown v.lost w.lost

/-- A comment in place of the first step is a comment in place of both. -/
lemma orComment_next {v w : Survey} (hw : v.fails = false → w.fails = false) :
    (v.next w).orComment = v.orElse ⟨false, 1, 0⟩ w := by
  cases hv : v.fails with
  | true =>
    rw [next_of_fails hv, orComment_of_fails hv, orElse_of_fails hv]
    rfl
  | false =>
    rw [orElse_of_not_fails hv, next_of_not_fails hv]
    exact orComment_of_not_fails (hw hv)

@[simp] lemma counted_dropped (v : Survey) : v.dropped.counted = v.counted := Nat.zero_add _

lemma counted_comment (v : Survey) : counted ⟨false, 1, v.counted⟩ = v.counted + 1 := Nat.add_comm 1 v.counted

end Survey

open Survey

mutual

/-- Surveys a node. -/
def survey (o : Options) (n : Node) : Survey :=
  match n with
  | .absent | .string .. | .symbol .. | .integer .. | .float .. | .boolean .. | .nil _ | .self _ | .var .. => silent
  | .array _ elements => surveyElements o elements
  | .hash _ pairs => surveyPairs o pairs
  | .block _ _ body => surveyBody o body
  | .cond _ condition _ [consequence] [] => (survey o condition).next (survey o consequence)
  | .cond _ condition _ [consequence] [alternative] =>
    (survey o condition).next ((survey o consequence).next (survey o alternative))
  | .program _ [only] => survey o only
  | .call _ receiver name arguments blk =>
    let function :=
      match blk with
      | .block _ _ body => surveyBody o body
      | _ => silent
    if receiver.isAbsent then
      -- the block of `puts` is left out
      if name == "puts" then surveyAll o arguments else (surveyAll o arguments).next function
    else if isOperator receiver name arguments blk then (survey o receiver).next (surveyAll o arguments)
    else if (constructed? o receiver name).isSome then (surveyAll o arguments).next function
    else (surveyAll o arguments).next ((survey o receiver).next function)
  | .cond .. | .program .. | .assignment .. | .loop .. | .method .. | .ret .. | .comment .. | .unknown .. => failing

/-- Surveys nodes. -/
def surveyAll (o : Options) (ns : List Node) : Survey :=
  match ns with
  | [] => silent
  | n :: rest => (survey o n).next (surveyAll o rest)

/-- Surveys elements. -/
def surveyElements (o : Options) (ns : List Node) : Survey :=
  match ns with
  | [] => silent
  | n :: rest => (survey o n).orComment.next (surveyElements o rest)

/-- The survey of the entries of an object literal: a string or a symbol as a key is no expression. -/
def surveyPairs (o : Options) (ps : List (Node × Node)) : Survey :=
  match ps with
  | [] => silent
  | (key, value) :: rest => ((survey o key).next (survey o value)).orComment.next (surveyPairs o rest)

/-- The survey of the statements of a node, whose survey as an expression is `asExpr`. -/
def surveyStatement (o : Options) (n : Node) (asExpr : Survey) : Survey :=
  match n with
  | .absent | .comment .. => silent
  | .program _ body => surveyBody o body
  | .assignment _ _ _ _ value => (survey o value).orComment
  | .cond _ condition _ consequence alternative =>
    ((survey o condition).next ((surveyBody o consequence).next
      (surveyAlternatives o alternative (surveyBody o alternative)))).orComment
  | .loop _ condition _ body => ((survey o condition).next (surveyBody o body)).orComment
  | .method _ _ _ body => surveyBody o body
  | .ret _ value => (survey o value).orComment
  | .unknown .. | .call .. | .block .. | .var .. | .self .. | .string .. | .integer .. | .float .. | .boolean ..
  | .nil .. | .symbol .. | .array .. | .hash .. => asExpr.orComment

/-- Surveys a body. -/
def surveyBody (o : Options) (ns : List Node) : Survey :=
  match ns with
  | [] => silent
  | n :: rest => (surveyStatement o n (survey o n)).next (surveyBody o rest)

/-- The survey of what follows a first branch, where `ordinary` is that of the nodes as a plain body. A
condition that cannot be completed is generated twice. -/
def surveyAlternatives (o : Options) (ns : List Node) (ordinary : Survey) : Survey :=
  match ns with
  | [] => silent
  | [.cond _ condition _ consequence alternative] =>
    (survey o condition).orElse ordinary ((surveyBody o consequence).next
      (surveyAlternatives o alternative (surveyBody o alternative)))
  | _ => ordinary

end

lemma fails_surveyElements (o : Options) (ns : List Node) : (surveyElements o ns).fails = false := by
  induction ns with
  | nil => rfl
  | cons n rest ih => rw [surveyElements, next_of_not_fails (fails_orComment _), ih]

lemma fails_surveyPairs (o : Options) (ps : List (Node × Node)) : (surveyPairs o ps).fails = false := by
  induction ps with
  | nil => rfl
  | cons p rest ih => rw [surveyPairs, next_of_not_fails (fails_orComment _), ih]

/-! ## Steps and their surveys -/

variable {α β : Type}

/-- An outcome in a state. -/
def concluded {ε σ : Type} : Except ε α → σ → EStateM.Result ε σ α
  | .ok a, s => .ok a s
  | .error e, s => .error e s

lemma Emit.attempt_of_eq_concluded {x : Emit α} {s s' : Progress} {r : Except Text α}
    (h : x s = concluded r s') : Emit.attempt x s = .ok r s' := by
  rw [Emit.attempt, h]
  cases r <;> rfl

lemma Emit.inFrame_of_eq_ok {x : Emit α} {frame : Frame} {outer frames : List Frame} {count : Nat} {a : α}
    {s : Progress} (h : x ⟨frame :: outer, count⟩ = .ok a s) :
    Emit.inFrame frame outer x ⟨frames, count⟩ = .ok a { s with frames := frames } := by
  change (x >>= fun result => _) (⟨frame :: outer, count⟩ : Progress) = _
  rw [bind_of_eq_ok h]
  rfl

/-! ## Calls -/

section Generator

variable (o : Options) {v w : Survey}

/-- Surveys a block. -/
def surveyBlock (blk : Node) : Survey :=
  match blk with
  | .block _ _ body => surveyBody o body
  | _ => silent

lemma survey_call_absent (span : Span) (name : Text) (arguments : List Node) (blk : Node) :
    survey o (.call span .absent name arguments blk) =
      if name == "puts" then surveyAll o arguments else (surveyAll o arguments).next (surveyBlock o blk) := by
  rw [survey.eq_def]
  rfl

lemma survey_call (span : Span) {receiver : Node} (h : receiver.isAbsent = false) (name : Text)
    (arguments : List Node) (blk : Node) :
    survey o (.call span receiver name arguments blk) =
      if isOperator receiver name arguments blk then (survey o receiver).next (surveyAll o arguments)
      else if (constructed? o receiver name).isSome then (surveyAll o arguments).next (surveyBlock o blk)
      else (surveyAll o arguments).next ((survey o receiver).next (surveyBlock o blk)) := by
  rw [survey.eq_def]
  simp only [h]
  rfl

variable {blk : Node}

lemma surveyBlock_of_not_isBlock (h : ¬ blk.isBlock) : surveyBlock o blk = silent := by
  cases blk with
  | block => exact absurd rfl h
  | _ => rfl

/-- The comments that a program makes in expressions that are dropped. -/
def lostRemarks (nodes : List Node) : Nat := (surveyBody o nodes).lost

end Generator

end Transpiler.Script
