import Transpiler.Proofs.After
import Transpiler.Proofs.Script.Listing
import Transpiler.Proofs.Script.Scoping
import Transpiler.Script.Generator

/-!
# What the generator emits

The generator walks over a body whose assignments were listed beforehand. Each thing it can do to names is one rule of
`Emits`: leave out assignments of the list, make the next one, declare it, or go into braces or functions. Facts about
the declarations need no more than an induction on the rules.
-/

namespace Transpiler.Script

open List

/-! ## The rules -/

/-- How `name` is declared. -/
def declarationOf (frames : List Frame) (name : Text) : Declaration :=
  if isMutable frames name then .let else .const

/-- Code with these events can be emitted from the first frames, when the first list of assignments is still
ahead, and leads to the second frames and list. `direct` tells statements of the body itself from those in
braces. Only where a name is `lost` is an assignment left out that is a plain statement of the body. -/
inductive Emits (lost : Text → Prop) : (direct : Bool) → (frames : List Frame) → (ahead : List Assigned) →
    List Event → List Frame → List Assigned → Prop
  /-- Nothing comes of some assignments. -/
  | skip {direct frames ahead} (left : List Assigned) (h : ∀ a ∈ left, a.direct = true → lost a.name) :
    Emits lost direct frames (left ++ ahead) [] frames ahead
  | seq {direct frames frames₁ frames₂ ahead ahead₁ ahead₂ es es'}
      (h : Emits lost direct frames ahead es frames₁ ahead₁)
      (h' : Emits lost direct frames₁ ahead₁ es' frames₂ ahead₂) :
    Emits lost direct frames ahead (es ++ es') frames₂ ahead₂
  /-- An assignment to what is bound, or through an operator. -/
  | assign {direct frames ahead} (a : Assigned) (hown : a.inBlock = false)
      (hdirect : a.direct = true → direct = true)
      (h : a.direct = true → resolves frames a.name = true) :
    Emits lost direct frames (a :: ahead) [.bind none a.name] frames ahead
  /-- An assignment that declares its name. -/
  | declare {direct frames ahead} (a : Assigned) (hown : a.inBlock = false)
      (hdirect : a.direct = true → direct = true) (h : resolves frames a.name = false) :
    Emits lost direct frames (a :: ahead) [.bind (some (declarationOf frames a.name)) a.name]
      (declaring a.name frames) ahead
  /-- A block. Its assignments are among those ahead, and stay there. -/
  | arrow {direct frames frames' ahead params es} (body : List Node)
      (hnames : assignedNames (assignedInBody body) ⊆ assignedNames ahead)
      (h : Emits lost true (.ofBody frames params body :: frames) (assignedInBody body) es frames' []) :
    Emits lost direct frames ahead [.arrow params (hoistEvents (hoisted frames params body) ++ es)] frames ahead
  /-- A method, which sees none of the frames. -/
  | method {direct frames frames' ahead params es} (body : List Node)
      (h : Emits lost true [.ofBody [] params body] (assignedInBody body) es frames' []) :
    Emits lost direct frames ahead [.method params (hoistEvents (hoisted [] params body) ++ es)] frames ahead
  /-- The braces of a branch or loop, which share the frames around them. -/
  | braces {direct frames frames' ahead ahead' es}
      (h : Emits lost false frames ahead es frames' ahead') :
    Emits lost direct frames ahead [.braces es] frames' ahead'

variable {clean : Prop} {lost : Text → Prop} {α : Type}

/-- The step fails, at least from some state. -/
def Emit.Fails (x : Emit α) : Prop := ∃ s tag s', x s = .error tag s'

namespace Emits

variable {direct : Bool} {frames frames' : List Frame} {ahead ahead' : List Assigned} {es : List Event}

lemma nil : Emits lost direct frames ahead [] frames ahead := skip [] (by simp)

/-- Whatever is no plain statement of the body may be left out. -/
lemma leave (left : List Assigned) (h : ∀ a ∈ left, a.direct = false) :
    Emits lost direct frames (left ++ ahead) [] frames ahead :=
  skip left fun a ha hdirect => absurd (hdirect.symm.trans (h a ha)) (by simp)

/-- What can be emitted in braces can be emitted as statements of the body. -/
lemma directly (h : Emits lost false frames ahead es frames' ahead') :
    Emits lost direct frames ahead es frames' ahead' := by
  generalize hfalse : false = d at h
  induction h with
  | skip left h => exact skip left h
  | seq _ _ ih ih' => exact (ih hfalse).seq (ih' hfalse)
  | assign a hown hdirect h =>
    exact assign a hown (fun ha => absurd (hfalse.trans (hdirect ha)) (by simp)) h
  | declare a hown hdirect h =>
    exact declare a hown (fun ha => absurd (hfalse.trans (hdirect ha)) (by simp)) h
  | arrow body hnames h => exact arrow body hnames h
  | method body h => exact method body h
  | braces h => exact braces h

end Emits

/-- Events of expressions: they can be emitted wherever the names they assign in blocks are ahead. -/
def Values (lost : Text → Prop) (names : List Text) (frames : List Frame) (es : List Event) : Prop :=
  ∀ direct ahead, names ⊆ assignedNames ahead → Emits lost direct frames ahead es frames ahead

namespace Values

variable {names : List Text} {frames : List Frame} {es es' : List Event}

lemma nil : Values lost names frames [] := fun _ _ _ => .nil

lemma append (h : Values lost names frames es) (h' : Values lost names frames es') :
    Values lost names frames (es ++ es') :=
  fun direct ahead hsub => (h direct ahead hsub).seq (h' direct ahead hsub)

end Values

/-- What is listed at first is emitted with these events. -/
def Produces (lost : Text → Prop) (direct : Bool) (listed : List Assigned) (frames : List Frame) (es : List Event)
    (frames' : List Frame) : Prop :=
  ∀ ahead, Emits lost direct frames (listed ++ ahead) es frames' ahead

namespace Produces

variable {direct : Bool} {listed listed' : List Assigned} {frames frames₁ frames' : List Frame} {es es' : List Event}

lemma nil : Produces lost direct [] frames [] frames := fun _ => .nil

lemma seq (h : Produces lost direct listed frames es frames₁) (h' : Produces lost direct listed' frames₁ es' frames') :
    Produces lost direct (listed ++ listed') frames (es ++ es') frames' := by
  intro ahead
  rw [append_assoc]
  exact (h _).seq (h' ahead)

lemma braces (h : Produces lost false listed frames es frames') :
    Produces lost direct listed frames [.braces es] frames' :=
  fun ahead => (h ahead).braces

/-- A comment stands for whatever is no plain statement of the body. -/
lemma leave (hdirect : ∀ a ∈ listed, a.direct = false) : Produces lost direct listed frames [] frames :=
  fun _ => .leave listed hdirect

/-- An expression for what is no plain statement of the body. -/
lemma value (hdirect : ∀ a ∈ listed, a.direct = false) (h : Values lost (assignedNames listed) frames es) :
    Produces lost direct listed frames es frames := by
  intro ahead
  have hvalue := h direct (listed ++ ahead) (by simp)
  simpa using hvalue.seq (.leave listed hdirect)

end Produces

/-! ## Events of generated code -/

@[simp] lemma events_grouped (n : Node) (e : Expr) : (grouped n e).events = e.events := by
  rw [grouped]
  split_ifs <;> rfl

@[simp] lemma events_conditionOf (n : Node) (negated : Bool) (e : Expr) :
    (conditionOf n negated e).events = e.events := by
  cases negated
  · rfl
  · exact events_grouped n e

@[simp] lemma events_variableExpr (name : Text) (scope : Scope) : (variableExpr name scope).events = [] := by
  cases scope <;> rfl

lemma events_methodCall (object : Expr) (name : Text) (arguments : List Expr) :
    (methodCall object name arguments).events = object.events ++ Expr.allEvents arguments := by
  rw [methodCall.eq_def]
  split
  · split_ifs <;> simp [Expr.events, Expr.allEvents]
  · split_ifs <;> simp [Expr.events, Expr.allEvents]
  · simp [Expr.events]

lemma allEvents_hoistStatement (names : List Text) : Stmt.allEvents (hoistStatement names) = hoistEvents names := by
  rw [hoistStatement]
  split_ifs with hempty
  · rw [List.isEmpty_iff.1 hempty]
    rfl
  · exact append_nil _

section Assignments

variable (frames : List Frame) (name : Text) (scope : Scope) (operator : Text)

/-- Whether an assignment declares its name: a plain one to a name that is not bound does. -/
def declares : Bool := isBound scope && operator.isEmpty && !resolves frames name

/-- The declaration in an assignment statement. -/
def declarationIn : Option Declaration :=
  if declares frames name scope operator then some (declarationOf frames name) else none

/-- The frames after an assignment statement. -/
def assigning : List Frame := if declares frames name scope operator then declaring name frames else frames

/-- The statements of an assignment. -/
def assignmentOf (declaration : Option Declaration) (value : Expr) (yields : Bool) : List Stmt :=
  .assign declaration (variableExpr name scope) operator value
    :: if yields then [.ret (variableExpr name scope)] else []

/-- An assignment statement declares its name or leaves the frames alone. -/
lemma assignmentStatement_eq (value : Expr) (yields : Bool) (count : Nat) :
    assignmentStatement name scope operator value yields ⟨frames, count⟩
      = .ok (assignmentOf name scope operator (declarationIn frames name scope operator) value yields)
          ⟨assigning frames name scope operator, count⟩ := by
  rw [assignmentStatement, bind_of_eq_ok (x := get) rfl, declarationIn, assigning, declares]
  by_cases h : (isBound scope && operator.isEmpty && !resolves frames name)
  · simp only [h, if_true, Option.isSome_some]
    cases frames <;> rfl
  · simp only [if_neg h, Option.isSome_none]
    rfl

/-- The events of an assignment statement: those of the value, and then the assignment if the target is a
name. -/
lemma events_assignmentOf (declaration : Option Declaration) (value : Expr) (yields : Bool) :
    Stmt.allEvents (assignmentOf name scope operator declaration value yields)
      = value.events ++ if isBound scope then [.bind declaration name] else [] := by
  cases scope <;> cases yields <;> simp [assignmentOf, variableExpr, isBound, Stmt.allEvents, Stmt.events, Expr.events]

variable {frames} {listed : List Assigned} {es : List Event}

/-- An assignment statement makes or declares what is listed for it, after its value. -/
lemma produces_assign (direct : Bool) (hdirect : ∀ a ∈ listed, a.direct = false)
    (hvalue : Values lost (assignedNames listed) frames es) :
    Produces lost direct ((if isBound scope then [⟨name, direct && operator.isEmpty, false⟩] else []) ++ listed) frames
      (es ++ if isBound scope then [.bind (declarationIn frames name scope operator) name] else [])
      (assigning frames name scope operator) := by
  have hplain : (direct && operator.isEmpty) = true → direct = true := fun h =>
    (Bool.and_eq_true_iff.1 h).1
  intro ahead
  refine (hvalue direct _ fun x hx => by simp [hx]).seq ?_
  rw [declarationIn, assigning]
  by_cases hbound : isBound scope = true
  · rw [if_pos hbound, if_pos hbound]
    by_cases h : declares frames name scope operator = true
    · rw [if_pos h, if_pos h]
      simp only [declares, Bool.and_eq_true, Bool.not_eq_true'] at h
      simpa using (Emits.declare ⟨name, direct && operator.isEmpty, false⟩ rfl hplain h.2).seq (.leave listed hdirect)
    · -- an assignment that could have declared its name has found it bound
      have hold : (direct && operator.isEmpty) = true → resolves frames name = true := by
        intro hboth
        simp only [declares, hbound, Bool.and_eq_true, Bool.not_eq_true', true_and, not_and] at h hboth
        simpa using h hboth.2
      rw [if_neg h, if_neg h]
      simpa using (Emits.assign ⟨name, direct && operator.isEmpty, false⟩ rfl hplain hold).seq (.leave listed hdirect)
  · have h : declares frames name scope operator = false := by simp [declares, hbound]
    rw [if_neg hbound, if_neg hbound, h]
    exact .leave listed hdirect

end Assignments

/-- The function for a call's block, if it has one. -/
def blockArgument (o : Options) (blk : Node) (yields : Bool) : Emit (List Expr) :=
  match blk with
  | .block _ params body => do
    let f ← arrowOf params body (statements o body yields)
    return [f]
  | _ => return []

/-- A call that is no command. -/
def plainCall (o : Options) (name : Text) (arguments : List Node) (blk : Node) : Emit Expr := do
  let args ← exprs o arguments
  let b ← blockArgument o blk true
  return .call (.name name) (args ++ b)

/-- The expression of a call without receiver: a command, or the call of a function. -/
lemma expr_call_absent (o : Options) (span : Span) (name : Text) (arguments : List Node) (blk : Node) :
    expr o (.call span .absent name arguments blk) =
      if name == "puts" then do
        let args ← exprs o arguments
        return .call (.host o.print) args
      else if name == "grab" then
        match arguments with
        | [id] =>
          if blk.isBlock then plainCall o name arguments blk
          else do
            let id ← expr o id
            return .call (.host o.lookup) [id]
        | _ => plainCall o name arguments blk
      else if name == "wait" then
        match arguments with
        | [] => do
          let f ← blockArgument o blk false
          return .call (.host o.timer) [f.headD (.arrow [] []), .integer 0]
        | [seconds] => do
          let e ← expr o seconds
          let f ← blockArgument o blk false
          return .call (.host o.timer) [f.headD (.arrow [] []), delayOf seconds e]
        | _ => plainCall o name arguments blk
      else plainCall o name arguments blk := by
  rw [expr.eq_def]
  rfl

/-- The expression of a call with a receiver: an operator, a constructor or a method. -/
lemma expr_call (o : Options) (span : Span) {receiver : Node} (h : receiver.isAbsent = false) (name : Text)
    (arguments : List Node) (blk : Node) :
    expr o (.call span receiver name arguments blk) =
      if isOperator receiver name arguments blk then
        match arguments with
        | [] => do
          let r ← expr o receiver
          return .unary ((unaryOperator? name).getD name) (grouped receiver r)
        | a :: _ => do
          let r ← expr o receiver
          let e ← expr o a
          return .binary (grouped receiver r) ((binaryOperator? name).getD name) (grouped a e)
      else do
        let args ← exprs o arguments
        match constructed? o receiver name with
        | some type => return .construct type (args ++ (← blockArgument o blk true))
        | none => do
          let r ← expr o receiver
          let object := grouped receiver r
          if blk.isBlock then return .call (.member object name) (args ++ (← blockArgument o blk true))
          else return methodCall object name args := by
  cases receiver with
  | absent => simp [Node.isAbsent] at h
  | _ =>
    rw [expr.eq_def]
    rfl

lemma statement_ret (o : Options) {value : Node} (h : value.isAbsent = false) (span : Span) (asExpr : Emit Expr)
    (yields : Bool) : statement o (.ret span value) asExpr yields
      = orComment (expr o value) fun v => return [.ret v] := by
  rw [statement]
  rintro rfl
  cases h

/-! ## Declarations that are lost -/

mutual

/-- The bodies of the blocks and methods in a node. -/
def sourceBodies (n : Node) : List (List Node) :=
  match n with
  | .program _ body => allSourceBodies body
  | .assignment _ _ _ _ value => sourceBodies value
  | .call _ receiver _ arguments blk =>
    sourceBodies receiver ++ allSourceBodies arguments ++ sourceBodies blk
  | .block _ _ body => body :: allSourceBodies body
  | .array _ elements => allSourceBodies elements
  | .hash _ pairs => pairSourceBodies pairs
  | .cond _ condition _ consequence alternative =>
    sourceBodies condition ++ allSourceBodies consequence ++ allSourceBodies alternative
  | .loop _ condition _ body => sourceBodies condition ++ allSourceBodies body
  | .method _ _ _ body => body :: allSourceBodies body
  | .ret _ value => sourceBodies value
  | .absent | .var .. | .self .. | .string .. | .integer .. | .float .. | .boolean .. | .nil ..
  | .symbol .. | .comment .. | .unknown .. => []

/-- The bodies in nodes. -/
def allSourceBodies (ns : List Node) : List (List Node) :=
  match ns with
  | [] => []
  | n :: rest => sourceBodies n ++ allSourceBodies rest

/-- The bodies in pairs. -/
def pairSourceBodies (ps : List (Node × Node)) : List (List Node) :=
  match ps with
  | [] => []
  | (key, value) :: rest => sourceBodies key ++ sourceBodies value ++ pairSourceBodies rest

end

attribute [simp] sourceBodies allSourceBodies pairSourceBodies

section Lost

variable {o : Options}

/-- Among the statements of a body is a plain assignment to the name whose value cannot be expressed, so
that a comment takes its place. -/
def Loses (o : Options) (body : List Node) (x : Text) : Prop :=
  ∃ span scope value, .assignment span x scope [] value ∈ body ∧ isBound scope ∧ (expr o value).Fails

/-- Some body of a program loses the declaration of the name. -/
def LosesAnywhere (o : Options) (nodes : List Node) (x : Text) : Prop :=
  ∃ body ∈ nodes :: allSourceBodies nodes, Loses o body x

/-- Unless `clean` holds, `lost` covers what the bodies lose. -/
def Covers (o : Options) (clean : Prop) (lost : Text → Prop) (bodies : List (List Node)) : Prop :=
  ¬ clean → ∀ body ∈ bodies, ∀ x, Loses o body x → lost x

/-- The bodies that statements belong to: their own if they are statements of the body itself, and those
inside them. -/
def bodiesOf (direct : Bool) (ns : List Node) : List (List Node) :=
  (if direct then [ns] else []) ++ allSourceBodies ns

lemma allSourceBodies_eq_flatMap (ns : List Node) : allSourceBodies ns = ns.flatMap sourceBodies := by
  induction ns with
  | nil => rfl
  | cons n rest ih => rw [allSourceBodies, ih, flatMap_cons]

lemma pairSourceBodies_eq (ps : List (Node × Node)) :
    pairSourceBodies ps = allSourceBodies (ps.flatMap fun p => [p.1, p.2]) := by
  induction ps with
  | nil => rfl
  | cons p rest ih => simp [pairSourceBodies, ih]

variable {direct : Bool} {names : List Text} {n : Node} {ns ns' : List Node}

lemma Covers.sub (h : Covers o clean lost (bodiesOf direct ns)) (hsub : ns' ⊆ ns) :
    Covers o clean lost (bodiesOf direct ns') := by
  intro hc body hbody x hx
  rcases mem_append.1 hbody with hbody | hbody
  · cases direct with
    | false => simp at hbody
    | true =>
      obtain rfl : body = ns' := by simpa using hbody
      obtain ⟨span, scope, value, hmem, hbound, hfails⟩ := hx
      exact h hc ns (by simp [bodiesOf]) x ⟨span, scope, value, hsub hmem, hbound, hfails⟩
  · refine h hc body (mem_append_right _ ?_) x hx
    rw [allSourceBodies_eq_flatMap, mem_flatMap] at hbody ⊢
    obtain ⟨n, hn, hbody⟩ := hbody
    exact ⟨n, hsub hn, hbody⟩

lemma covers_true (ns : List Node) : Covers o True (fun _ => True) (bodiesOf true ns) := fun _ _ _ _ _ => trivial

lemma Covers.children (h : Covers o clean lost (bodiesOf direct [n])) :
    Covers o clean lost (bodiesOf false n.children) := by
  refine fun hc body hbody => h hc body (mem_append_right _ ?_)
  cases n <;> simp_all [Node.children, bodiesOf, pairSourceBodies_eq, allSourceBodies_eq_flatMap]

lemma Covers.body {body : List Node} (h : Covers o clean lost (bodiesOf direct [n]))
    (hn : sourceBodies n = body :: allSourceBodies body) : Covers o clean lost (bodiesOf true body) :=
  fun hc b hb => h hc b (mem_append_right _ (by simpa [hn, bodiesOf] using hb))

/-- What the bodies in some nodes lose is covered, and the names that the nodes assign are among these. -/
structure Within (o : Options) (clean : Prop) (lost : Text → Prop) (names : List Text) (ns : List Node) : Prop where
  covers : Covers o clean lost (bodiesOf false ns)
  names : ∀ n ∈ ns, assignedNames (assignedBelow false n) ⊆ names

namespace Within

lemma sub (h : Within o clean lost names ns) (hsub : ns' ⊆ ns) : Within o clean lost names ns' :=
  ⟨h.covers.sub hsub, fun n hn => h.names n (hsub hn)⟩

lemma of_covers (h : Covers o clean lost (bodiesOf direct ns)) (hn : n ∈ ns) :
    Within o clean lost (assignedNames (assignedBelow false n)) [n] where
  covers := fun hc body hbody => h.sub (by simpa using hn) hc body (mem_append_right _ hbody)
  names := by simp

lemma children (h : Within o clean lost names [n]) (hn : ∀ span name params body, n ≠ .method span name params body) :
    Within o clean lost names n.children := by
  refine ⟨h.covers.children, fun c hc x hx => h.names n (by simp) ?_⟩
  rw [names_assignedBelow false (false || n.isBlock)] at hx
  obtain ⟨a, ha, rfl⟩ := mem_map.1 hx
  rw [assignedBelow_eq false hn, assignedNames_append]
  exact mem_append_right _ (mem_map_of_mem (mem_flatMap.2 ⟨c, hc, ha⟩))

end Within

/-- A comment in place of an assignment takes the declaration of a name only where the name is lost. -/
lemma produces_comment_assignment {span : Span} {name : Text} {scope : Scope} {operator : Text} {value : Node}
    (hc : ¬ clean) (h : Covers o clean lost (bodiesOf direct [.assignment span name scope operator value]))
    (hfails : (expr o value).Fails) (frames : List Frame) :
    Produces lost direct (listed direct (.assignment span name scope operator value)) frames [] frames := by
  refine fun _ => .skip _ fun a ha hdirect => ?_
  rw [listed_assignment, mem_append] at ha
  rcases ha with ha | ha
  · by_cases hbound : isBound scope = true
    · rw [if_pos hbound, mem_singleton] at ha
      subst ha
      -- only a plain assignment that is a statement of the body itself is listed as direct
      obtain ⟨rfl, hempty⟩ := Bool.and_eq_true_iff.1 hdirect
      obtain rfl := List.isEmpty_iff.1 hempty
      exact h hc [.assignment span name scope [] value] (by simp [bodiesOf]) name
        ⟨span, scope, value, mem_singleton_self _, hbound, hfails⟩
    · rw [if_neg hbound] at ha
      simp at ha
  · exact absurd (hdirect.symm.trans (direct_assignedBelow false value a ha)) (by simp)

end Lost

end Transpiler.Script
