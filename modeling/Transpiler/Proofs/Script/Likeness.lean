import Mathlib.Data.List.Forall2
import Transpiler.Proofs.Script.Emission

/-!
# Programs that are alike

Two programs are alike if they differ at most in the contents of string literals. The generator never looks at those,
so it does the same for both, step by step, and what it builds for the one is related to what it builds for the other
by every relation that is closed under the constructors it uses. Read for one program and itself, this says that every
property closed under those constructors holds of all generated code.
-/

namespace Transpiler

open List Script

/-- How programs that are alike may differ, and what may stand in them. -/
structure Likeness where
  /-- The contents of two string literals at the same place. -/
  value : Text → Text → Prop
  /-- The tags of constructs without a representation. -/
  tag : Text → Prop
  /-- The operators of assignments. -/
  operator : Text → Prop

/-- The tags that comments in generated code can show. -/
def Likeness.Shown (l : Likeness) (tag : Text) : Prop := l.tag tag ∨ tag ∈ Node.handledTags

/-- Any tags and operators, and string literals whose contents are related. -/
def Likeness.upTo (R : Text → Text → Prop) : Likeness := ⟨R, fun _ => True, fun _ => True⟩

/-- What stands verbatim in a node may stand there. -/
def Likeness.Admits (l : Likeness) : Node → Prop
  | .unknown _ tag _ => l.tag tag
  | .assignment _ _ _ operator _ => l.operator operator
  | .string _ value => l.value value value
  | _ => True

namespace Node

/-- Whether it is a string. -/
def isString : Node → Bool
  | .string .. => true
  | _ => false

mutual

/-- The trees are the same up to the contents of string literals. -/
inductive Alike (l : Likeness) : Node → Node → Prop
  | absent : Alike l .absent .absent
  | program (span : Span) {body body' : List Node} (h : Forall₂ (Alike l) body body') :
      Alike l (.program span body) (.program span body')
  | assignment (span : Span) (name : Text) (scope : Scope) {operator : Text} (h : l.operator operator)
      {value value' : Node} (hvalue : Alike l value value') :
      Alike l (.assignment span name scope operator value) (.assignment span name scope operator value')
  | call (span : Span) (name : Text) {receiver receiver' : Node} (hreceiver : Alike l receiver receiver')
      {arguments arguments' : List Node} (harguments : Forall₂ (Alike l) arguments arguments')
      {blk blk' : Node} (hblk : Alike l blk blk') :
      Alike l (.call span receiver name arguments blk) (.call span receiver' name arguments' blk')
  | block (span : Span) (params : List Text) {body body' : List Node}
      (h : Forall₂ (Alike l) body body') : Alike l (.block span params body) (.block span params body')
  | var (span : Span) (name : Text) (scope : Scope) : Alike l (.var span name scope) (.var span name scope)
  | self (span : Span) : Alike l (.self span) (.self span)
  | string (span : Span) {value value' : Text} (h : l.value value value') :
      Alike l (.string span value) (.string span value')
  | integer (span : Span) (value : Int64) : Alike l (.integer span value) (.integer span value)
  | float (span : Span) (value : Binary64) : Alike l (.float span value) (.float span value)
  | boolean (span : Span) (value : Bool) : Alike l (.boolean span value) (.boolean span value)
  | nil (span : Span) : Alike l (.nil span) (.nil span)
  | symbol (span : Span) (value : Text) : Alike l (.symbol span value) (.symbol span value)
  | array (span : Span) {elements elements' : List Node} (h : Forall₂ (Alike l) elements elements') :
      Alike l (.array span elements) (.array span elements')
  | hash (span : Span) {pairs pairs' : List (Node × Node)} (h : Forall₂ (PairAlike l) pairs pairs') :
      Alike l (.hash span pairs) (.hash span pairs')
  | cond (span : Span) (negated : Bool) {condition condition' : Node}
      (hcondition : Alike l condition condition')
      {consequence consequence' : List Node} (hconsequence : Forall₂ (Alike l) consequence consequence')
      {alternative alternative' : List Node} (halternative : Forall₂ (Alike l) alternative alternative') :
      Alike l (.cond span condition negated consequence alternative)
        (.cond span condition' negated consequence' alternative')
  | loop (span : Span) (negated : Bool) {condition condition' : Node}
      (hcondition : Alike l condition condition')
      {body body' : List Node} (hbody : Forall₂ (Alike l) body body') :
      Alike l (.loop span condition negated body) (.loop span condition' negated body')
  | method (span : Span) (name : Text) (params : List Text) {body body' : List Node}
      (h : Forall₂ (Alike l) body body') :
      Alike l (.method span name params body) (.method span name params body')
  | ret (span : Span) {value value' : Node} (h : Alike l value value') : Alike l (.ret span value) (.ret span value')
  | comment (span : Span) (text : Text) : Alike l (.comment span text) (.comment span text)
  | unknown (span : Span) {tag : Text} (h : l.tag tag) (text : Text) :
      Alike l (.unknown span tag text) (.unknown span tag text)

/-- The pairs of a hash are the same up to the contents of string literals that are not keys themselves. -/
inductive PairAlike (l : Likeness) : Node × Node → Node × Node → Prop
  | named (span : Span) (key : Text) {value value' : Node} (h : Alike l value value') :
      PairAlike l (.string span key, value) (.string span key, value')
  | other {key key' value value' : Node} (hstring : key.isString = false) (hkey : Alike l key key')
      (hvalue : Alike l value value') : PairAlike l (key, value) (key', value')

end

section Alike

variable {l : Likeness} {n n' : Node} {ns ns' : List Node}

lemma Alike.isAbsent_eq (h : n.Alike l n') : n.isAbsent = n'.isAbsent := by
  cases h <;> rfl

lemma Alike.eq_absent (h : n.Alike l n') (habsent : n.isAbsent) : n' = .absent :=
  eq_absent_of_isAbsent (h.isAbsent_eq ▸ habsent)

lemma Alike.isBlock_eq (h : n.Alike l n') : n.isBlock = n'.isBlock := by
  cases h <;> rfl

lemma Alike.isComment_eq (h : n.Alike l n') : n.isComment = n'.isComment := by
  cases h <;> rfl

lemma all_isComment_eq (h : Forall₂ (Alike l) ns ns') : ns.all isComment = ns'.all isComment := by
  induction h with
  | nil => rfl
  | cons hn _ ih => rw [all_cons, all_cons, hn.isComment_eq, ih]

/-- The children of trees that are alike are alike, but for the keys of hashes, which are the same. -/
lemma Alike.children (h : n.Alike l n') : Forall₂ (fun c c' => c = c' ∨ c.Alike l c') n.children n'.children := by
  have hall : ∀ {ns ns'}, Forall₂ (Alike l) ns ns' → Forall₂ (fun c c' => c = c' ∨ c.Alike l c') ns ns' :=
    fun h => h.imp fun _ _ => .inr
  cases h with
  | program _ h | block _ _ h | array _ h | method _ _ _ h => exact hall h
  | assignment _ _ _ _ h | ret _ h => exact .cons (.inr h) .nil
  | call _ _ hreceiver harguments hblk =>
    exact .cons (.inr hreceiver) (rel_append (hall harguments) (.cons (.inr hblk) .nil))
  | hash _ hpairs =>
    induction hpairs with
    | nil => exact .nil
    | cons hpair _ ih =>
      cases hpair with
      | named _ _ h => exact .cons (.inl rfl) (.cons (.inr h) ih)
      | other _ hkey h => exact .cons (.inr hkey) (.cons (.inr h) ih)
  | cond _ _ hcondition hconsequence halternative =>
    exact .cons (.inr hcondition) (rel_append (hall hconsequence) (hall halternative))
  | loop _ _ hcondition hbody => exact .cons (.inr hcondition) (hall hbody)
  | _ => exact .nil

/-! ### A program and itself -/

lemma pairAlike_self {key value : Node} (hkey : key.Alike l key) (hvalue : value.Alike l value) :
    PairAlike l (key, value) (key, value) := by
  cases hstring : key.isString with
  | false => exact .other hstring hkey hvalue
  | true =>
    cases hkey with
    | string span => exact .named span _ hvalue
    | _ => cases hstring

lemma alike_self (n : Node) (h : n.Everywhere l.Admits) : n.Alike l n := by
  induction n using childwise with
  | step n ih =>
  cases habsent : n.isAbsent with
  | true => exact eq_absent_of_isAbsent habsent ▸ .absent
  | false =>
    obtain ⟨hadmits, hbelow⟩ := (everywhere_iff habsent).1 h
    have hsame : ∀ c ∈ n.children, c.Alike l c := fun c hc => ih c hc (hbelow c hc)
    have hall : ∀ {ns}, ns ⊆ n.children → Forall₂ (Alike l) ns ns := fun hns =>
      forall₂_same.2 fun c hc => hsame c (hns hc)
    cases n with
    | absent => exact .absent
    | program span body => exact .program span (hall (.refl _))
    | assignment span name scope operator value =>
      exact .assignment span name scope hadmits (hsame value (by simp [children]))
    | call span receiver name arguments blk =>
      exact .call span name (hsame receiver (by simp [children])) (hall (by simp [children]))
        (hsame blk (by simp [children]))
    | block span params body => exact .block span params (hall (.refl _))
    | var => exact .var ..
    | self => exact .self ..
    | string span value => exact .string span hadmits
    | integer => exact .integer ..
    | float => exact .float ..
    | boolean => exact .boolean ..
    | nil => exact .nil ..
    | symbol => exact .symbol ..
    | array span elements => exact .array span (hall (.refl _))
    | hash span pairs =>
      refine .hash span (forall₂_same.2 fun p hp => pairAlike_self (hsame p.1 ?_) (hsame p.2 ?_))
      · exact mem_flatMap.2 ⟨p, hp, by simp⟩
      · exact mem_flatMap.2 ⟨p, hp, by simp⟩
    | cond span condition negated consequence alternative =>
      exact .cond span negated (hsame condition (by simp [children])) (hall (by simp [children]))
        (hall (by simp [children]))
    | loop span condition negated body =>
      exact .loop span negated (hsame condition (by simp [children])) (hall (by simp [children]))
    | method span name params body => exact .method span name params (hall (.refl _))
    | ret span value => exact .ret span (hsame value (by simp [children]))
    | comment => exact .comment ..
    | unknown span tag text => exact .unknown span hadmits text

lemma allAlike_self (ns : List Node) (h : ∀ m ∈ walkAll (fun _ => true) ns, l.Admits m) : Forall₂ (Alike l) ns ns := by
  rw [walkAll_eq_flatMap, forall_mem_flatMap] at h
  exact forall₂_same.2 fun n hn => alike_self n (h n hn)

end Alike

end Node

namespace Script

/-! ## What the generator reads off a tree -/

variable {arguments arguments' : List Node}

section Reading

variable {l : Likeness} {n n' : Node} {ns ns' : List Node}

lemma isOperator_eq {receiver receiver' blk blk' : Node}
    (hreceiver : receiver.Alike l receiver') (name : Text)
    (harguments : Forall₂ (Node.Alike l) arguments arguments') (hblk : blk.Alike l blk') :
    isOperator receiver name arguments blk = isOperator receiver' name arguments' blk' := by
  have hempty : arguments.isEmpty = arguments'.isEmpty := by cases harguments <;> rfl
  rw [isOperator, isOperator, hreceiver.isAbsent_eq, hblk.isBlock_eq, harguments.length_eq, hempty]

lemma needsGroup_eq (h : n.Alike l n') : needsGroup n = needsGroup n' := by
  cases h with
  | call _ name hreceiver harguments hblk => exact isOperator_eq hreceiver name harguments hblk
  | _ => rfl

lemma exists_unaryOperator {receiver blk : Node} {name : Text}
    (h : isOperator receiver name [] blk) : ∃ op, unaryOperator? name = some op := by
  simp only [isOperator, Bool.and_eq_true] at h
  simpa [Option.isSome_iff_exists] using h.2

lemma exists_binaryOperator {receiver a blk : Node} {name : Text} {rest : List Node}
    (h : isOperator receiver name (a :: rest) blk) : ∃ op, binaryOperator? name = some op := by
  simp only [isOperator, Bool.and_eq_true] at h
  have hboth : (binaryOperator? name).isSome ∧ rest = [] := by simpa using h.2
  exact Option.isSome_iff_exists.1 hboth.1

lemma mem_baseTypes_of_constructed? {o : Options} {method type : Text}
    (h : constructed? o n method = some type) : type ∈ o.baseTypes := by
  rw [constructed?.eq_def] at h
  split at h
  · split_ifs at h with hnew
    rw [Bool.and_eq_true] at hnew
    rw [← Option.some.inj h]
    exact contains_iff_mem.1 hnew.2
  · cases h

lemma constructed?_eq (o : Options) (h : n.Alike l n') (method : Text) :
    constructed? o n method = constructed? o n' method := by
  cases h <;> rfl

lemma flatMap_eq {f : Node → List Assigned} (hf : ∀ n ∈ ns, ∀ n', n.Alike l n' → f n = f n')
    (h : Forall₂ (fun n n' => n = n' ∨ n.Alike l n') ns ns') : ns.flatMap f = ns'.flatMap f := by
  induction h with
  | nil => rfl
  | cons hn _ ih =>
    obtain ⟨hhead, hrest⟩ := forall_mem_cons.1 hf
    rw [flatMap_cons, flatMap_cons, ih hrest, hn.elim (congrArg f) (hhead _)]

lemma assignedBelow_alike (h : n.Alike l n') (inBlock : Bool) : assignedBelow inBlock n = assignedBelow inBlock n' := by
  refine Node.childwise (P := fun n => ∀ n', n.Alike l n' → ∀ inBlock, assignedBelow inBlock n = assignedBelow inBlock n')
    (fun n ih n' h inBlock => ?_) n n' h inBlock
  have hat : assignedAt inBlock n = assignedAt inBlock n' := by cases h <;> rfl
  have hchildren := flatMap_eq (fun c hc c' h => ih c hc c' h (inBlock || n.isBlock)) h.children
  cases h with
  | method => rfl
  | _ =>
    refine (assignedBelow_eq inBlock (by simp)).trans ?_
    exact (congrArg₂ _ hat hchildren).trans (assignedBelow_eq inBlock (by simp)).symm

lemma assignedInStatement_eq (h : n.Alike l n') : assignedInStatement n = assignedInStatement n' := by
  have hbelow := assignedBelow_alike h false
  cases h with
  | assignment _ _ _ _ hvalue => rw [assignedInStatement, assignedInStatement, assignedBelow_alike hvalue false]
  | _ => exact hbelow

lemma usages_eq (h : Forall₂ (Node.Alike l) ns ns') : usages ns = usages ns' := by
  have hbody : assignedInBody ns = assignedInBody ns' := by
    induction h with
    | nil => rfl
    | cons hn _ ih =>
      rw [assignedInBody, flatMap_cons, assignedInStatement_eq hn, ← assignedInBody, ih]
      rfl
  rw [usages, usages, hbody]

lemma hoisted_eq (outer : List Frame) (params : List Text) (h : Forall₂ (Node.Alike l) ns ns') :
    hoisted outer params ns = hoisted outer params ns' := by
  rw [hoisted, hoisted, ownUsages, ownUsages, usages_eq h]

lemma ofBody_eq (outer : List Frame) (params : List Text) (h : Forall₂ (Node.Alike l) ns ns') :
    Frame.ofBody outer params ns = Frame.ofBody outer params ns' := by
  rw [Frame.ofBody, Frame.ofBody, hoisted_eq outer params h, ownUsages, ownUsages, usages_eq h]

end Reading

/-! ## Two steps at once -/

section Twin

variable {α β γ δ : Type} {tag : Text → Prop}

/-- From every state the two steps lead to the same state, both with results that are related or both with
the same failure. -/
def Twin (tag : Text → Prop) (rel : α → β → Prop) (x : Emit α) (y : Emit β) : Prop :=
  ∀ s, (∃ a b s', x s = .ok a s' ∧ y s = .ok b s' ∧ rel a b) ∨ ∃ t s', x s = .error t s' ∧ y s = .error t s' ∧ tag t

/-- The values of two attempts. -/
inductive Attempted (tag : Text → Prop) (rel : α → β → Prop) : Except Text α → Except Text β → Prop
  | ok {a : α} {b : β} (h : rel a b) : Attempted tag rel (.ok a) (.ok b)
  | error {t : Text} (h : tag t) : Attempted tag rel (.error t) (.error t)

namespace Twin

variable {rel : α → β → Prop} {rel' : γ → δ → Prop}

lemma pure {a : α} {b : β} (h : rel a b) : Twin tag rel (Pure.pure a) (Pure.pure b) :=
  fun s => .inl ⟨a, b, s, rfl, rfl, h⟩

lemma refuse {t : Text} (h : tag t) : Twin tag rel (.refuse t) (.refuse t) :=
  fun s => .inr ⟨t, s, rfl, rfl, h⟩

variable {x : Emit α}

/-- A step that cannot fail is its own twin. -/
lemma same (h : ∀ s, ∃ a s', x s = .ok a s') : Twin tag Eq x x := by
  intro s
  obtain ⟨a, s', hrun⟩ := h s
  exact .inl ⟨a, a, s', hrun, hrun, rfl⟩

lemma bind {y : Emit β} {f : α → Emit γ} {g : β → Emit δ} (hx : Twin tag rel x y)
    (hf : ∀ a b, rel a b → Twin tag rel' (f a) (g b)) : Twin tag rel' (x >>= f) (y >>= g) := by
  intro s
  obtain ⟨a, b, s', hxs, hys, hab⟩ | ⟨t, s', hxs, hys, ht⟩ := hx s
  · rw [bind_of_eq_ok hxs, bind_of_eq_ok hys]
    exact hf a b hab s'
  · rw [bind_of_eq_error hxs, bind_of_eq_error hys]
    exact .inr ⟨t, s', rfl, rfl, ht⟩

/-- The same step first, if it cannot fail. -/
lemma after {f : α → Emit γ} {g : α → Emit δ} (h : ∀ s, ∃ a s', x s = .ok a s')
    (hf : ∀ a, Twin tag rel' (f a) (g a)) : Twin tag rel' (x >>= f) (x >>= g) :=
  (same h).bind fun a _ hab => hab ▸ hf a

lemma attempt {y : Emit β} (h : Twin tag rel x y) : Twin tag (Attempted tag rel) (.attempt x) (.attempt y) := by
  intro s
  obtain ⟨a, b, s', hxs, hys, hab⟩ | ⟨t, s', hxs, hys, ht⟩ := h s
  · exact .inl ⟨.ok a, .ok b, s', by rw [Emit.attempt, hxs], by rw [Emit.attempt, hys], .ok hab⟩
  · exact .inl ⟨.error t, .error t, s', by rw [Emit.attempt, hxs], by rw [Emit.attempt, hys], .error ht⟩

lemma inFrame {y : Emit β} (h : Twin tag rel x y) (frame : Frame) (outer : List Frame) :
    Twin tag rel (.inFrame frame outer x) (.inFrame frame outer y) :=
  after (fun s => ⟨s, s, rfl⟩) fun _ => after (fun _ => ⟨_, _, rfl⟩) fun _ => h.bind fun _ _ hab =>
    after (fun _ => ⟨_, _, rfl⟩) fun _ => pure hab

end Twin

end Twin

/-! ## Relations between generated trees -/

/-- Whether an expression has no parts and the generator takes it from the source as it is. -/
def Expr.isAtom : Expr → Bool
  | .null | .this | .boolean _ | .integer _ | .float _ | .delay _ | .string _ | .name _ => true
  | _ => false

/-- The texts of the host that stand verbatim in generated code. -/
def Options.hosts (o : Options) : List Text := [o.print, o.timer, o.lookup, "globalThis"]

/-- Relations between generated trees that are closed under every constructor the generator uses. -/
structure Congruence (o : Options) (l : Likeness) where
  expr : Expr → Expr → Prop
  entry : Entry → Entry → Prop
  stmt : Stmt → Stmt → Prop
  alternative : Alternative → Alternative → Prop
  atom {e : Expr} (h : e.isAtom) : expr e e
  literal {v v' : Text} (h : l.value v v') : expr (.string v) (.string v')
  host {t : Text} (h : t ∈ o.hosts) : expr (.host t) (.host t)
  member {e e' : Expr} (h : expr e e') (property : Text) : expr (.member e property) (.member e' property)
  index {e e' k k' : Expr} (h : expr e e') (hk : expr k k') : expr (.index e k) (.index e' k')
  call {e e' : Expr} {es es' : List Expr} (h : expr e e') (hs : Forall₂ expr es es') : expr (.call e es) (.call e' es')
  construct {type : Text} {es es' : List Expr} (h : type ∈ o.baseTypes) (hs : Forall₂ expr es es') :
    expr (.construct type es) (.construct type es')
  unary {name op : Text} {e e' : Expr} (h : unaryOperator? name = some op) (he : expr e e') :
    expr (.unary op e) (.unary op e')
  binary {name op : Text} {e e' r r' : Expr} (h : binaryOperator? name = some op) (he : expr e e')
    (hr : expr r r') : expr (.binary e op r) (.binary e' op r')
  conditional {c c' t t' e e' : Expr} (hc : expr c c') (ht : expr t t') (he : expr e e') :
    expr (.conditional c t e) (.conditional c' t' e')
  assign {e e' v v' : Expr} (h : expr e e') (hv : expr v v') : expr (.assign e v) (.assign e' v')
  group {e e' : Expr} (h : expr e e') : expr (.group e) (.group e')
  arrow (params : List Text) {ss ss' : List Stmt} (h : Forall₂ stmt ss ss') :
    expr (.arrow params ss) (.arrow params ss')
  array {es es' : List Entry} (h : Forall₂ entry es es') : expr (.array es) (.array es')
  object {es es' : List Entry} (h : Forall₂ entry es es') : expr (.object es) (.object es')
  value {e e' : Expr} (h : expr e e') : entry (.value e) (.value e')
  named (key : Text) {e e' : Expr} (h : expr e e') : entry (.named key e) (.named key e')
  computed {k k' e e' : Expr} (hk : expr k k') (h : expr e e') : entry (.computed k e) (.computed k' e')
  commented {tag : Text} (h : l.Shown tag) : entry (.comment tag) (.comment tag)
  comment {tag : Text} (h : l.Shown tag) : stmt (.comment tag) (.comment tag)
  hoist (names : List Text) : stmt (.hoist names) (.hoist names)
  assignment (declaration : Option Declaration) {op : Text} {e e' v v' : Expr} (hop : l.operator op)
    (h : expr e e') (hv : expr v v') : stmt (.assign declaration e op v) (.assign declaration e' op v')
  expression {e e' : Expr} (h : expr e e') : stmt (.expr e) (.expr e')
  ret {e e' : Expr} (h : expr e e') : stmt (.ret e) (.ret e')
  leave : stmt .leave .leave
  branch {c c' : Expr} {ss ss' : List Stmt} {a a' : Alternative} (hc : expr c c')
    (h : Forall₂ stmt ss ss') (ha : alternative a a') : stmt (.branch c ss a) (.branch c' ss' a')
  loop {c c' : Expr} {ss ss' : List Stmt} (hc : expr c c') (h : Forall₂ stmt ss ss') : stmt (.loop c ss) (.loop c' ss')
  function (name : Text) (params : List Text) {ss ss' : List Stmt} (h : Forall₂ stmt ss ss') :
    stmt (.function name params ss) (.function name params ss')
  none : alternative .none .none
  otherwise {ss ss' : List Stmt} (h : Forall₂ stmt ss ss') : alternative (.otherwise ss) (.otherwise ss')
  elif {c c' : Expr} {ss ss' : List Stmt} {a a' : Alternative} (hc : expr c c')
    (h : Forall₂ stmt ss ss') (ha : alternative a a') : alternative (.elif c ss a) (.elif c' ss' a')

namespace Congruence

variable {o : Options} {l : Likeness} (K : Congruence o l)

section Building

variable {n n' : Node} {e e' : Expr}

lemma grouped (hn : n.Alike l n') (h : K.expr e e') : K.expr (grouped n e) (grouped n' e') := by
  rw [Script.grouped, Script.grouped, needsGroup_eq hn]
  split_ifs
  · exact K.group h
  · exact h

lemma conditionOf (hn : n.Alike l n') (negated : Bool) (h : K.expr e e') :
    K.expr (conditionOf n negated e) (conditionOf n' negated e') := by
  cases negated with
  | false => exact h
  | true =>
    have hnot : unaryOperator? "!" = some "!" := rfl
    exact K.unary hnot (K.grouped hn h)

lemma variableExpr (name : Text) (scope : Scope) : K.expr (variableExpr name scope) (variableExpr name scope) := by
  cases scope with
  | object => exact K.member (K.atom rfl) _
  | global => exact K.member (K.host (by simp [Options.hosts])) _
  | «local» => exact K.atom rfl
  | constant => exact K.atom rfl

lemma delayOf (hn : n.Alike l n') (h : K.expr e e') : K.expr (delayOf n e) (delayOf n' e') := by
  have htimes : binaryOperator? "*" = some "*" := rfl
  have hproduct : K.expr (.binary (Script.grouped n e) "*" (.integer 1000))
      (.binary (Script.grouped n' e') "*" (.integer 1000)) :=
    K.binary htimes (K.grouped hn h) (K.atom rfl)
  cases hn with
  | integer => exact K.atom rfl
  | float => exact K.atom rfl
  | _ => exact hproduct

lemma methodCall (h : K.expr e e') (name : Text) {es es' : List Expr} (hs : Forall₂ K.expr es es') :
    K.expr (methodCall e name es) (methodCall e' name es') := by
  have hcall : K.expr (.call (.member e name) es) (.call (.member e' name) es') := K.call (K.member h name) hs
  match hs with
  | .nil => exact hcall
  | .cons ha .nil =>
    rw [Script.methodCall, Script.methodCall]
    split_ifs
    · exact K.index h ha
    · exact K.call (K.member h "push") (.cons ha .nil)
    · exact K.assign (K.member h name.dropLast) ha
    · exact hcall
  | .cons ha (.cons hb .nil) =>
    rw [Script.methodCall, Script.methodCall]
    split_ifs
    · exact K.assign (K.index h ha) hb
    · exact hcall
  | .cons _ (.cons _ (.cons _ _)) => exact hcall

lemma timer {f f' : List Expr} (hf : Forall₂ K.expr f f') (h : K.expr e e') :
    K.expr (.call (.host o.timer) [f.headD (.arrow [] []), e])
      (.call (.host o.timer) [f'.headD (.arrow [] []), e']) := by
  have hhead : K.expr (f.headD (.arrow [] [])) (f'.headD (.arrow [] [])) := by
    cases hf with
    | nil => exact K.arrow [] .nil
    | cons h _ => exact h
  exact K.call (K.host (by simp [Options.hosts])) (.cons hhead (.cons h .nil))

lemma hoistStatement (names : List Text) {ss ss' : List Stmt} (h : Forall₂ K.stmt ss ss') :
    Forall₂ K.stmt (hoistStatement names ++ ss) (hoistStatement names ++ ss') := by
  rw [Script.hoistStatement]
  split_ifs
  · exact h
  · exact .cons (K.hoist names) h

end Building

section Steps

variable {n n' : Node}

lemma arrowOf (params : List Text) {body body' : List Node} (hbody : Forall₂ (Node.Alike l) body body')
    {x y : Emit (List Stmt)} (h : Twin l.Shown (Forall₂ K.stmt) x y) :
    Twin l.Shown K.expr (arrowOf params body x) (arrowOf params body' y) := by
  refine .after (fun s => ⟨s, s, rfl⟩) fun s => ?_
  dsimp only
  rw [ofBody_eq _ params hbody, hoisted_eq _ params hbody]
  exact (h.inFrame _ _).bind fun ss ss' hss => .pure (K.arrow params (K.hoistStatement _ hss))

/-- Statements that are related, with the same outcome. -/
def Statements (r r' : List Stmt × Outcome) : Prop := Forall₂ K.stmt r.1 r'.1 ∧ r.2 = r'.2

lemma commentedStatement {t : Text} (h : l.Shown t) :
    Twin l.Shown K.Statements (Script.commented t) (Script.commented t) :=
  .after (fun _ => ⟨_, _, rfl⟩) fun _ => .pure ⟨.cons (K.comment h) .nil, rfl⟩

lemma orComment {x y : Emit Expr} {f g : Expr → Emit (List Stmt)} (h : Twin l.Shown K.expr x y)
    (hf : ∀ e e', K.expr e e' → Twin l.Shown (Forall₂ K.stmt) (f e) (g e')) :
    Twin l.Shown K.Statements (orComment x f) (orComment y g) := by
  refine h.attempt.bind fun r r' hr => ?_
  cases hr with
  | ok he => exact (hf _ _ he).bind fun ss ss' hss => .pure ⟨hss, rfl⟩
  | error ht => exact K.commentedStatement ht

lemma entryOr {x y : Emit Entry} (h : Twin l.Shown K.entry x y) : Twin l.Shown K.entry (entryOr x) (entryOr y) := by
  refine h.attempt.bind fun r r' hr => ?_
  cases hr with
  | ok he => exact .pure he
  | error ht => exact .after (fun _ => ⟨_, _, rfl⟩) fun _ => .pure (K.commented ht)

lemma pairEntry {key key' value value' : Node} (h : Node.PairAlike l (key, value) (key', value'))
    {k k' v v' : Emit Expr} (hk : key.Alike l key' → Twin l.Shown K.expr k k') (hv : Twin l.Shown K.expr v v') :
    Twin l.Shown K.entry (pairEntry key k v) (pairEntry key' k' v') := by
  have hnamed : ∀ name, Twin l.Shown K.entry (do return Entry.named name (← v)) (do return Entry.named name (← v')) :=
    fun name => hv.bind fun e e' he => .pure (K.named name he)
  cases h with
  | named _ key _ => exact hnamed key
  | other hstring hkey _ =>
    have hcomputed : Twin l.Shown K.entry (do return Entry.computed (← k) (← v))
        (do return Entry.computed (← k') (← v')) :=
      (hk hkey).bind fun a a' ha => hv.bind fun e e' he => .pure (K.computed ha he)
    cases hkey with
    | symbol _ name => exact hnamed name
    | string => cases hstring
    | _ => exact hcomputed

lemma expressionStatement {x y : Emit Expr} (h : Twin l.Shown K.expr x y) (yields : Bool) :
    Twin l.Shown K.Statements (expressionStatement x yields) (expressionStatement y yields) := by
  refine K.orComment h fun e e' he => .pure (.cons ?_ .nil)
  cases yields with
  | false => exact K.expression he
  | true => exact K.ret he

lemma assignmentStatement (name : Text) (scope : Scope) {operator : Text} (hop : l.operator operator)
    {e e' : Expr} (h : K.expr e e') (yields : Bool) :
    Twin l.Shown (Forall₂ K.stmt) (assignmentStatement name scope operator e yields)
      (assignmentStatement name scope operator e' yields) := by
  have htarget := K.variableExpr name scope
  have hyields : Forall₂ K.stmt (if yields then [.ret (Script.variableExpr name scope)] else [])
      (if yields then [.ret (Script.variableExpr name scope)] else []) := by
    cases yields with
    | false => exact .nil
    | true => exact .cons (K.ret htarget) .nil
  -- whether the assignment declares its name depends on the frames alone
  rintro ⟨frames, count⟩
  exact .inl ⟨_, _, _, assignmentStatement_eq frames name scope operator e yields count,
    assignmentStatement_eq frames name scope operator e' yields count, .cons (K.assignment _ hop htarget h) hyields⟩

variable {blk blk' : Node}

lemma plainCall (name : Text)
    (harguments : Twin l.Shown (Forall₂ K.expr) (exprs o arguments) (exprs o arguments'))
    (hblk : Twin l.Shown (Forall₂ K.expr) (blockArgument o blk true) (blockArgument o blk' true)) :
    Twin l.Shown K.expr (plainCall o name arguments blk) (plainCall o name arguments' blk') :=
  harguments.bind fun _ _ has => hblk.bind fun _ _ hb => .pure (K.call (K.atom rfl) (rel_append has hb))

lemma expr_call_absent (span : Span) (name : Text)
    (halike : Forall₂ (Node.Alike l) arguments arguments') (hblock : blk.Alike l blk')
    (hargument : Forall₂ (fun a a' => Twin l.Shown K.expr (Script.expr o a) (Script.expr o a')) arguments arguments')
    (harguments : Twin l.Shown (Forall₂ K.expr) (exprs o arguments) (exprs o arguments'))
    (hblk : ∀ yields, Twin l.Shown (Forall₂ K.expr) (blockArgument o blk yields) (blockArgument o blk' yields)) :
    Twin l.Shown K.expr (Script.expr o (.call span .absent name arguments blk))
      (Script.expr o (.call span .absent name arguments' blk')) := by
  have hplain := K.plainCall name harguments (hblk true)
  rw [Script.expr_call_absent, Script.expr_call_absent]
  by_cases hputs : (name == "puts") = true
  · rw [if_pos hputs, if_pos hputs]
    exact harguments.bind fun _ _ has => .pure (K.call (K.host (by simp [Options.hosts])) has)
  rw [if_neg hputs, if_neg hputs]
  by_cases hgrab : (name == "grab") = true
  · rw [if_pos hgrab, if_pos hgrab]
    match hargument with
    | .nil => exact hplain
    | .cons ha .nil =>
      rw [hblock.isBlock_eq]
      cases blk'.isBlock with
      | true => exact hplain
      | false =>
        exact ha.bind fun _ _ hid => .pure (K.call (K.host (by simp [Options.hosts])) (.cons hid .nil))
    | .cons _ (.cons _ _) => exact hplain
  rw [if_neg hgrab, if_neg hgrab]
  by_cases hwait : (name == "wait") = true
  · rw [if_pos hwait, if_pos hwait]
    match halike, hargument with
    | .nil, _ => exact (hblk false).bind fun _ _ hf => .pure (K.timer hf (K.atom rfl))
    | .cons hseconds .nil, .cons ha .nil =>
      exact ha.bind fun _ _ he => (hblk false).bind fun _ _ hf => .pure (K.timer hf (K.delayOf hseconds he))
    | .cons _ (.cons _ _), _ => exact hplain
  rw [if_neg hwait, if_neg hwait]
  exact hplain

lemma expr_call (span : Span) {receiver receiver' : Node} (hr : receiver.Alike l receiver')
    (h : receiver.isAbsent = false) (name : Text)
    (halike : Forall₂ (Node.Alike l) arguments arguments') (hblock : blk.Alike l blk')
    (hreceiver : Twin l.Shown K.expr (Script.expr o receiver) (Script.expr o receiver'))
    (hargument : Forall₂ (fun a a' => Twin l.Shown K.expr (Script.expr o a) (Script.expr o a')) arguments arguments')
    (harguments : Twin l.Shown (Forall₂ K.expr) (exprs o arguments) (exprs o arguments'))
    (hblk : Twin l.Shown (Forall₂ K.expr) (blockArgument o blk true) (blockArgument o blk' true)) :
    Twin l.Shown K.expr (Script.expr o (.call span receiver name arguments blk))
      (Script.expr o (.call span receiver' name arguments' blk')) := by
  rw [Script.expr_call o span h, Script.expr_call o span (hr.isAbsent_eq ▸ h), isOperator_eq hr name halike hblock]
  by_cases hoperator : isOperator receiver' name arguments' blk'
  · rw [if_pos hoperator, if_pos hoperator]
    match halike, hargument with
    | .nil, _ =>
      obtain ⟨op, hop⟩ := exists_unaryOperator hoperator
      rw [hop]
      exact hreceiver.bind fun _ _ hr' => .pure (K.unary hop (K.grouped hr hr'))
    | .cons ha _, .cons hargument _ =>
      obtain ⟨op, hop⟩ := exists_binaryOperator hoperator
      rw [hop]
      exact hreceiver.bind fun _ _ hr' => hargument.bind fun _ _ he =>
        .pure (K.binary hop (K.grouped hr hr') (K.grouped ha he))
  rw [if_neg hoperator, if_neg hoperator]
  refine harguments.bind fun args args' hargs => ?_
  rw [constructed?_eq o hr]
  cases htype : constructed? o receiver' name with
  | some type =>
    exact hblk.bind fun _ _ hb =>
      .pure (K.construct (mem_baseTypes_of_constructed? htype) (rel_append hargs hb))
  | none =>
    refine hreceiver.bind fun r r' hr' => ?_
    have hobject := K.grouped hr hr'
    rw [hblock.isBlock_eq]
    cases blk'.isBlock with
    | true =>
      exact hblk.bind fun _ _ hb => .pure (K.call (K.member hobject name) (rel_append hargs hb))
    | false => exact .pure (K.methodCall hobject name hargs)

end Steps

mutual

lemma expr_alike (n : Node) {n' : Node} (h : n.Alike l n') :
    Twin l.Shown K.expr (Script.expr o n) (Script.expr o n') := by
  match n with
  | .absent | .symbol .. | .integer .. | .float .. | .boolean .. | .nil .. | .self .. =>
    cases h
    exact .pure (K.atom rfl)
  | .string .. =>
    cases h with
    | string _ hvalue => exact .pure (K.literal hvalue)
  | .var _ name scope =>
    cases h
    exact .pure (K.variableExpr name scope)
  | .array _ elements =>
    cases h with
    | array _ h => exact (elementEntries_alike elements h).bind fun _ _ hes => .pure (K.array hes)
  | .hash _ pairs =>
    cases h with
    | hash _ h => exact (pairEntries_alike pairs h).bind fun _ _ hes => .pure (K.object hes)
  | .block _ params body =>
    cases h with
    | block _ _ h => exact K.arrowOf params h (statements_alike body h true)
  | .cond _ condition negated consequence alternative =>
    cases h with
    | cond _ _ hcondition hconsequence halternative =>
      have hc := expr_alike condition hcondition
      have ht := argument_alike consequence hconsequence
      have he := argument_alike alternative halternative
      have hrefused : l.Shown "If" := .inr (by simp [Node.handledTags])
      match hconsequence, halternative, ht, he with
      | .cons htn .nil, .nil, .cons ht _, _ =>
        exact hc.bind fun _ _ hc => ht.bind fun _ _ ht =>
          .pure (K.conditional (K.conditionOf hcondition negated hc) (K.grouped htn ht) (K.atom rfl))
      | .cons htn .nil, .cons hen .nil, .cons ht _, .cons he _ =>
        exact hc.bind fun _ _ hc => ht.bind fun _ _ ht => he.bind fun _ _ he =>
          .pure (K.conditional (K.conditionOf hcondition negated hc) (K.grouped htn ht) (K.grouped hen he))
      | .nil, _, _, _ => exact .refuse hrefused
      | .cons _ (.cons _ _), _, _, _ => exact .refuse hrefused
      | .cons _ .nil, .cons _ (.cons _ _), _, _ => exact .refuse hrefused
  | .program _ body =>
    cases h with
    | program _ hbody =>
      have honly := argument_alike body hbody
      have hrefused : l.Shown "Program" := .inr (by simp [Node.handledTags])
      match honly with
      | .cons h .nil => exact h
      | .nil => exact .refuse hrefused
      | .cons _ (.cons _ _) => exact .refuse hrefused
  | .call span receiver name arguments blk =>
    cases h with
    | call _ _ hr halike hblock =>
      have hreceiver := expr_alike receiver hr
      have hargument := argument_alike arguments halike
      have harguments := exprs_alike arguments halike
      have hblk := blockArgument_alike blk hblock
      -- the two kinds of call have equations of their own
      cases habsent : receiver.isAbsent with
      | true =>
        rw [Node.eq_absent_of_isAbsent habsent, hr.eq_absent habsent]
        exact K.expr_call_absent span name halike hblock hargument harguments hblk
      | false =>
        exact K.expr_call span hr habsent name halike hblock hreceiver hargument harguments (hblk true)
  | .assignment .. | .loop .. | .method .. | .ret .. | .comment .. =>
    cases h
    exact .refuse (.inr (by simp [Node.tag, Node.handledTags]))
  | .unknown .. =>
    cases h with
    | unknown _ htag _ => exact .refuse (.inl htag)
termination_by structural n

lemma blockArgument_alike (n : Node) {n' : Node} (h : n.Alike l n') (yields : Bool) :
    Twin l.Shown (Forall₂ K.expr) (blockArgument o n yields) (blockArgument o n' yields) := by
  match n with
  | .block _ params body =>
    cases h with
    | block _ _ h =>
      exact (K.arrowOf params h (statements_alike body h yields)).bind fun _ _ hf => .pure (.cons hf .nil)
  | .absent | .program .. | .assignment .. | .call .. | .var .. | .self .. | .string .. | .integer ..
  | .float .. | .boolean .. | .nil .. | .symbol .. | .array .. | .hash .. | .cond .. | .loop ..
  | .method .. | .ret .. | .comment .. | .unknown .. =>
    cases h
    exact .pure .nil
termination_by structural n

lemma argument_alike (ns : List Node) {ns' : List Node} (h : Forall₂ (Node.Alike l) ns ns') :
    Forall₂ (fun a a' => Twin l.Shown K.expr (Script.expr o a) (Script.expr o a')) ns ns' := by
  match ns with
  | [] =>
    cases h
    exact .nil
  | n :: rest =>
    cases h with
    | cons hn hrest => exact .cons (expr_alike n hn) (argument_alike rest hrest)
termination_by structural ns

lemma exprs_alike (ns : List Node) {ns' : List Node} (h : Forall₂ (Node.Alike l) ns ns') :
    Twin l.Shown (Forall₂ K.expr) (exprs o ns) (exprs o ns') := by
  match ns with
  | [] =>
    cases h
    exact .pure .nil
  | n :: rest =>
    cases h with
    | cons hn hrest =>
      exact (expr_alike n hn).bind fun _ _ he => (exprs_alike rest hrest).bind fun _ _ hes =>
        .pure (.cons he hes)
termination_by structural ns

lemma elementEntries_alike (ns : List Node) {ns' : List Node} (h : Forall₂ (Node.Alike l) ns ns') :
    Twin l.Shown (Forall₂ K.entry) (elementEntries o ns) (elementEntries o ns') := by
  match ns with
  | [] =>
    cases h
    exact .pure .nil
  | n :: rest =>
    cases h with
    | cons hn hrest =>
      have hentry := (expr_alike n hn).bind fun _ _ he => .pure (K.value he)
      exact (K.entryOr hentry).bind fun _ _ he => (elementEntries_alike rest hrest).bind fun _ _ hes =>
        .pure (.cons he hes)
termination_by structural ns

lemma pairEntries_alike (ps : List (Node × Node)) {ps' : List (Node × Node)}
    (h : Forall₂ (Node.PairAlike l) ps ps') :
    Twin l.Shown (Forall₂ K.entry) (pairEntries o ps) (pairEntries o ps') := by
  match ps with
  | [] =>
    cases h
    exact .pure .nil
  | (key, value) :: rest =>
    cases h with
    | @cons _ pair' _ _ hpair hrest =>
      obtain ⟨key', value'⟩ := pair'
      have hvalue : value.Alike l value' := by cases hpair <;> assumption
      have hentry := K.pairEntry hpair (expr_alike key) (expr_alike value hvalue)
      exact (K.entryOr hentry).bind fun _ _ he => (pairEntries_alike rest hrest).bind fun _ _ hes =>
        .pure (.cons he hes)
termination_by structural ps

lemma statement_alike (n : Node) {n' : Node} (h : n.Alike l n') {x y : Emit Expr}
    (hexpr : Twin l.Shown K.expr x y) (yields : Bool) :
    Twin l.Shown K.Statements (statement o n x yields) (statement o n' y yields) := by
  match n with
  | .absent | .comment .. =>
    cases h
    exact .pure ⟨.nil, rfl⟩
  | .unknown .. =>
    cases h with
    | unknown _ htag _ => exact K.commentedStatement (.inl htag)
  | .program _ body =>
    cases h with
    | program _ hbody => exact (statements_alike body hbody yields).bind fun _ _ hss => .pure ⟨hss, rfl⟩
  | .assignment _ name scope _ value =>
    cases h with
    | assignment _ _ _ hop hvalue =>
      exact K.orComment (expr_alike value hvalue) fun _ _ he =>
        K.assignmentStatement name scope hop he yields
  | .cond _ condition negated consequence alternative =>
    cases h with
    | cond _ _ hcondition hconsequence halternative =>
      have hc := (expr_alike condition hcondition).bind fun _ _ he =>
        .pure (K.conditionOf hcondition negated he)
      have hrest := alternatives_alike alternative halternative
        (statements_alike alternative halternative yields) yields
      exact K.orComment hc fun _ _ hc => (statements_alike consequence hconsequence yields).bind
        fun _ _ hss => hrest.bind fun _ _ ha => .pure (.cons (K.branch hc hss ha) .nil)
  | .loop _ condition negated body =>
    cases h with
    | loop _ _ hcondition hbody =>
      have hc := (expr_alike condition hcondition).bind fun _ _ he =>
        .pure (K.conditionOf hcondition negated he)
      exact K.orComment hc fun _ _ hc => (statements_alike body hbody false).bind fun _ _ hss =>
        .pure (.cons (K.loop hc hss) .nil)
  | .method _ name params body =>
    cases h with
    | method _ _ _ hbody =>
      rw [statement, statement, ofBody_eq [] params hbody, hoisted_eq [] params hbody]
      exact ((statements_alike body hbody true).inFrame _ _).bind fun _ _ hss =>
        .pure ⟨.cons (K.function name params (K.hoistStatement _ hss)) .nil, rfl⟩
  | .ret span value =>
    cases h with
    | ret _ hvalue =>
      have hv := expr_alike value hvalue
      cases habsent : value.isAbsent with
      | true =>
        rw [Node.eq_absent_of_isAbsent habsent, hvalue.eq_absent habsent]
        exact .pure ⟨.cons K.leave .nil, rfl⟩
      | false =>
        rw [statement_ret o habsent, statement_ret o (hvalue.isAbsent_eq ▸ habsent)]
        exact K.orComment hv fun _ _ he => .pure (.cons (K.ret he) .nil)
  | .call .. | .block .. | .var .. | .self .. | .string .. | .integer .. | .float .. | .boolean ..
  | .nil .. | .symbol .. | .array .. | .hash .. =>
    cases h
    exact K.expressionStatement hexpr yields
termination_by structural n

lemma statements_alike (ns : List Node) {ns' : List Node} (h : Forall₂ (Node.Alike l) ns ns')
    (yields : Bool) :
    Twin l.Shown (Forall₂ K.stmt) (statements o ns yields) (statements o ns' yields) := by
  match ns with
  | [] =>
    cases h
    exact .pure .nil
  | n :: rest =>
    cases h with
    | cons hn hrest =>
      rw [statements, statements, Node.all_isComment_eq hrest]
      exact (statement_alike n hn (expr_alike n hn) _).bind fun _ _ hfirst =>
        (statements_alike rest hrest yields).bind fun _ _ hmore => .pure (rel_append hfirst.1 hmore)
termination_by structural ns

lemma alternatives_alike (ns : List Node) {ns' : List Node} (h : Forall₂ (Node.Alike l) ns ns')
    {x y : Emit (List Stmt)} (hordinary : Twin l.Shown (Forall₂ K.stmt) x y) (yields : Bool) :
    Twin l.Shown K.alternative (alternatives o ns x yields) (alternatives o ns' y yields) := by
  have hotherwise : Twin l.Shown K.alternative (do return Alternative.otherwise (← x))
      (do return Alternative.otherwise (← y)) :=
    hordinary.bind fun _ _ hss => .pure (K.otherwise hss)
  match ns with
  | [] =>
    cases h
    exact .pure K.none
  | [.cond _ condition negated consequence alternative] =>
    cases h with
    | cons hn hnil =>
      cases hnil
      cases hn with
      | cond _ _ hcondition hconsequence halternative =>
        have hc := (expr_alike condition hcondition).bind fun _ _ he =>
          .pure (K.conditionOf hcondition negated he)
        have hbody := statements_alike consequence hconsequence yields
        have hrest := alternatives_alike alternative halternative
          (statements_alike alternative halternative yields) yields
        refine hc.attempt.bind fun r r' hr => ?_
        cases hr with
        | ok hc =>
          exact hbody.bind fun _ _ hss => hrest.bind fun _ _ ha => .pure (K.elif hc hss ha)
        | error => exact hotherwise
  | n :: m :: rest =>
    cases h with
    | cons hn hmany =>
      cases hmany
      cases hn <;> exact hotherwise
  | [.absent] | [.program ..] | [.assignment ..] | [.call ..] | [.block ..] | [.var ..]
  | [.self ..] | [.string ..] | [.integer ..] | [.float ..] | [.boolean ..] | [.nil ..] | [.symbol ..]
  | [.array ..] | [.hash ..] | [.loop ..] | [.method ..] | [.ret ..] | [.comment ..] | [.unknown ..] =>
    cases h with
    | cons hn hnil =>
      cases hnil
      cases hn
      exact hotherwise
termination_by structural ns

end

lemma topLevel_alike {nodes nodes' : List Node} (h : Forall₂ (Node.Alike l) nodes nodes') :
    Twin l.Shown (fun r r' => Forall₂ K.stmt r.1 r'.1 ∧ r.2 = r'.2) (topLevel o nodes) (topLevel o nodes') := by
  induction h with
  | nil => exact .pure ⟨.nil, rfl⟩
  | @cons n _ _ _ hn _ ih =>
    refine (K.statement_alike n hn (K.expr_alike n hn) false).bind fun r r' hr =>
      ih.bind fun m m' hm => .pure ⟨rel_append hr.1 hm.1, ?_⟩
    rw [hr.2, hm.2]

/-- The scripts of programs that are alike are related, statement by statement, and the same was counted on
the way. -/
lemma script_alike {nodes nodes' : List Node} (h : Forall₂ (Node.Alike l) nodes nodes') :
    Forall₂ K.stmt (script o nodes).1 (script o nodes').1 ∧ (script o nodes).2 = (script o nodes').2 := by
  rw [script, script, ofBody_eq [] [] h, hoisted_eq [] [] h]
  obtain ⟨⟨ss, n⟩, ⟨ss', n'⟩, s, hrun, hrun', hss, hn⟩ | ⟨t, s, hrun, hrun', -⟩ :=
    K.topLevel_alike h ⟨[.ofBody [] [] nodes'], 0⟩
  · rw [hrun, hrun']
    obtain rfl : n = n' := hn
    exact ⟨K.hoistStatement _ hss, rfl⟩
  · rw [hrun, hrun']
    exact ⟨.nil, rfl⟩

end Congruence

end Script

end Transpiler
