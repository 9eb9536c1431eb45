import Mathlib.Tactic.Common
import Transpiler.Script.Tree

/-!
# Scopes of generated code

The code is cut down to its events: assignments with the declarations they make, and the braces and functions they
stand in. A walk over the events gives every assignment with what is bound around it, so that the declaration it
refers to can be looked up by the rules of the language: in the innermost braces around it that bind its name, whether
before it or further on.
-/

namespace Transpiler.Script

open List Stmt

/-! ## Events -/

/-- What happens to names in a piece of code, in order. A value comes before the name it is assigned to. -/
inductive Event where
  /-- Assigns to a name, and declares it first if it says how. -/
  | bind (declares : Option Declaration) (name : Text)
  /-- The braces of a branch or loop. -/
  | braces (body : List Event)
  /-- A function that is a value. -/
  | arrow (params : List Text) (body : List Event)
  /-- A function statement. -/
  | method (params : List Text) (body : List Event)

/-- The events of declarations at the start of a body. -/
def hoistEvents (names : List Text) : List Event := names.map (.bind (some .let))

mutual

/-- The events of an expression. -/
def Expr.events (e : Expr) : List Event :=
  match e with
  | .member object _ => object.events
  | .index object key => object.events ++ key.events
  | .call callee arguments => callee.events ++ Expr.allEvents arguments
  | .construct _ arguments => Expr.allEvents arguments
  | .unary _ operand => operand.events
  | .binary left _ right => left.events ++ right.events
  | .conditional condition consequence alternative =>
    condition.events ++ consequence.events ++ alternative.events
  | .assign (.name x) value => value.events ++ [.bind none x]
  | .assign target value => target.events ++ value.events
  | .group inner => inner.events
  | .arrow params body => [.arrow params (Stmt.allEvents body)]
  | .array entries => Entry.allEvents entries
  | .object entries => Entry.allEvents entries
  | .null | .this | .boolean _ | .integer _ | .float _ | .delay _ | .string _ | .name _ | .host _ => []

/-- The events of expressions. -/
def Expr.allEvents (es : List Expr) : List Event :=
  match es with
  | [] => []
  | e :: rest => e.events ++ Expr.allEvents rest

/-- The events of an entry. -/
def Entry.events (e : Entry) : List Event :=
  match e with
  | .value e => e.events
  | .named _ e => e.events
  | .computed key e => key.events ++ e.events
  | .comment _ => []

/-- The events of entries. -/
def Entry.allEvents (es : List Entry) : List Event :=
  match es with
  | [] => []
  | e :: rest => e.events ++ Entry.allEvents rest

/-- The events of a statement. -/
def Stmt.events (s : Stmt) : List Event :=
  match s with
  | .comment _ | .leave => []
  | .hoist names => hoistEvents names
  | .assign declaration (.name x) _ value => value.events ++ [.bind declaration x]
  | .assign _ target _ value => target.events ++ value.events
  | .expr e => e.events
  | .ret e => e.events
  | .branch condition body alternative =>
    condition.events ++ [.braces (Stmt.allEvents body)] ++ alternative.events
  | .loop condition body => condition.events ++ [.braces (Stmt.allEvents body)]
  | .function _ params body => [.method params (Stmt.allEvents body)]

/-- The events of an alternative. -/
def Alternative.events (a : Alternative) : List Event :=
  match a with
  | .none => []
  | .otherwise body => [.braces (Stmt.allEvents body)]
  | .elif condition body rest =>
    condition.events ++ [.braces (Stmt.allEvents body)] ++ rest.events

/-- The events of statements. -/
def Stmt.allEvents (ss : List Stmt) : List Event :=
  match ss with
  | [] => []
  | s :: rest => s.events ++ Stmt.allEvents rest

end

lemma Expr.allEvents_append (es es' : List Expr) :
    Expr.allEvents (es ++ es') = Expr.allEvents es ++ Expr.allEvents es' := by
  induction es with
  | nil => rfl
  | cons e rest ih => rw [cons_append, Expr.allEvents, Expr.allEvents, ih, append_assoc]

lemma Stmt.allEvents_append (ss ss' : List Stmt) : allEvents (ss ++ ss') = allEvents ss ++ allEvents ss' := by
  induction ss with
  | nil => rfl
  | cons s rest ih => rw [cons_append, allEvents, allEvents, ih, append_assoc]

/-! ## What is bound around a place -/

/-- How a name is bound. -/
inductive Binding where
  | parameter
  | declared (how : Declaration)
deriving DecidableEq, Repr

/-- A name and how it is bound. -/
structure Local where
  name : Text
  binding : Binding
deriving DecidableEq, Repr

/-- The names of some braces. -/
structure Level where
  /-- Bound up to the place. -/
  before : List Local
  /-- Bound further on in the same braces. -/
  later : List Local
deriving DecidableEq, Repr

/-- What is bound at a place. -/
structure Context where
  /-- Bound so far in the function the place is in, in whatever braces, or where that function is a value,
  in the functions around it. -/
  taken : List Text
  /-- The braces around the place within its function, or where that function is a value, within the
  functions around it; innermost first. -/
  near : List Level
  /-- The braces beyond a function statement. -/
  far : List Level
deriving DecidableEq, Repr

/-- The binding that a name refers to at a place. -/
structure Resolution where
  binding : Binding
  /-- Bound up to the place, and not beyond a function statement. -/
  near : Bool
deriving DecidableEq, Repr

/-- What a name refers to in a pair of braces. -/
def Level.find? (l : Level) (x : Text) : Option Resolution :=
  match l.before.find? (·.name == x) with
  | some b => some ⟨b.binding, true⟩
  | none => (l.later.find? (·.name == x)).map fun b => ⟨b.binding, false⟩

namespace Context

/-- What a name refers to: the innermost braces that bind it decide. -/
def resolve (c : Context) (x : Text) : Option Resolution :=
  match c.near.findSome? (·.find? x) with
  | some r => some r
  | none => (c.far.findSome? (·.find? x)).map fun r => { r with near := false }

/-- The surroundings of a place after which the innermost braces bind these names. -/
def awaiting (c : Context) (later : List Local) : Context :=
  { c with near := c.near.modifyHead fun l => { l with later } }

/-- Inside new braces. -/
def inside (c : Context) : Context := { c with near := ⟨[], []⟩ :: c.near }

/-- Inside a function that is a value. -/
def enter (c : Context) (params : List Text) : Context where
  taken := params ++ c.taken
  near := ⟨params.map (⟨·, .parameter⟩), []⟩ :: c.near
  far := c.far

/-- The surroundings of a function statement's body: all braces are out of reach. -/
def apart (c : Context) : Context := ⟨[], [], c.near ++ c.far⟩

/-- The surroundings after names were bound, `own` by the innermost braces and `names` by any. -/
def adding (c : Context) (own : List Local) (names : List Text) : Context where
  taken := names ++ c.taken
  near := c.near.modifyHead fun l => { l with before := own ++ l.before }
  far := c.far

end Context

/-! ## The walk -/

/-- An assignment or declaration with what is around it. -/
structure Site where
  name : Text
  declares : Option Declaration
  context : Context
deriving DecidableEq, Repr

namespace Event

/-- What an event binds in the braces it stands in. -/
def locals : Event → List Local
  | .bind (some how) x => [⟨x, .declared how⟩]
  | _ => []

mutual

/-- The names that an event binds in the function it stands in. -/
def names (e : Event) : List Text :=
  match e with
  | .bind (some _) x => [x]
  | .bind none _ => []
  | .braces body => allNames body
  | .arrow .. | .method .. => []

/-- The names that some events bind in the function they stand in. -/
def allNames (es : List Event) : List Text :=
  match es with
  | [] => []
  | e :: rest => allNames rest ++ e.names

end

/-- What some events bind in the braces they stand in, the latest first. -/
def allLocals (es : List Event) : List Local := (es.map locals).reverse.flatten

mutual

/-- The sites of an event. -/
def sites (c : Context) (e : Event) : List Site :=
  match e with
  | .bind declares x => [⟨x, declares, c⟩]
  | .braces body => allSites c.inside [] body
  | .arrow params body => allSites (c.enter params) [] body
  | .method params body => allSites (c.apart.enter params) [] body

/-- The assignments in some events, after which the innermost braces bind `later`. -/
def allSites (c : Context) (later : List Local) (es : List Event) : List Site :=
  match es with
  | [] => []
  | e :: rest =>
    e.sites (c.awaiting (later ++ allLocals rest)) ++ allSites (c.adding e.locals e.names) later rest

end

end Event

namespace Context

@[simp] lemma adding_nil (c : Context) : c.adding [] [] = c := by
  obtain ⟨taken, near, far⟩ := c
  cases near <;> rfl

@[simp] lemma adding_adding (c : Context) (own own' : List Local) (names names' : List Text) :
    (c.adding own names).adding own' names' = c.adding (own' ++ own) (names' ++ names) := by
  obtain ⟨taken, near, far⟩ := c
  cases near <;> simp [adding]

end Context

namespace Event

@[simp] lemma allNames_append (es es' : List Event) : allNames (es ++ es') = allNames es' ++ allNames es := by
  induction es with
  | nil => simp [allNames]
  | cons e rest ih => simp [allNames, ih]

@[simp] lemma allLocals_nil : allLocals [] = [] := rfl

@[simp] lemma allLocals_cons (e : Event) (es : List Event) : allLocals (e :: es) = allLocals es ++ e.locals := by
  simp [allLocals]

@[simp] lemma allLocals_append (es es' : List Event) : allLocals (es ++ es') = allLocals es' ++ allLocals es := by
  simp [allLocals]

/-- The assignments of two pieces of code in sequence. The first piece sees what the second binds as bound
further on, and the second sees what the first binds as bound. -/
lemma allSites_append (c : Context) (later : List Local) (es es' : List Event) :
    allSites c later (es ++ es')
      = allSites c (later ++ allLocals es') es ++ allSites (c.adding (allLocals es) (allNames es)) later es' := by
  induction es generalizing c with
  | nil => simp [allSites, allNames]
  | cons e rest ih => simp [allSites, allNames, ih]

end Event

namespace Event

mutual

/-- The bodies of the functions in an event, with their parameters. -/
def bodies (e : Event) : List (List Text × List Event) :=
  match e with
  | .bind .. => []
  | .braces body => allBodies body
  | .arrow params body => (params, body) :: allBodies body
  | .method params body => (params, body) :: allBodies body

/-- The bodies of the functions in some events. -/
def allBodies (es : List Event) : List (List Text × List Event) :=
  match es with
  | [] => []
  | e :: rest => e.bodies ++ allBodies rest

end

/-- A body declares each name once and none of its parameters. -/
def DeclaresOnce (body : List Text × List Event) : Prop :=
  (allNames body.2).Nodup ∧ ∀ x ∈ allNames body.2, x ∉ body.1

mutual

/-- Where every declaration is of a name that is not taken, bodies declare names once. -/
lemma declaresOnce_of_fresh (c : Context) (e : Event)
    (h : ∀ s ∈ e.sites c, s.declares.isSome → s.name ∉ s.context.taken) :
    (e.names.Nodup ∧ ∀ x ∈ e.names, x ∉ c.taken) ∧ ∀ b ∈ e.bodies, DeclaresOnce b := by
  match e with
  | .bind none x => simp [names, bodies]
  | .bind (some how) x => simpa [names, bodies, sites] using h
  | .braces body => exact allDeclareOnce_of_fresh c.inside [] body h
  | .arrow params body =>
    obtain ⟨⟨hnodup, hfree⟩, hbodies⟩ := allDeclareOnce_of_fresh (c.enter params) [] body h
    refine ⟨by simp [names], forall_mem_cons.2 ⟨⟨hnodup, fun x hx hp => ?_⟩, hbodies⟩⟩
    exact hfree x hx (mem_append_left _ hp)
  | .method params body =>
    obtain ⟨⟨hnodup, hfree⟩, hbodies⟩ := allDeclareOnce_of_fresh (c.apart.enter params) [] body h
    refine ⟨by simp [names], forall_mem_cons.2 ⟨⟨hnodup, fun x hx hp => ?_⟩, hbodies⟩⟩
    exact hfree x hx (mem_append_left _ hp)

lemma allDeclareOnce_of_fresh (c : Context) (later : List Local) (es : List Event)
    (h : ∀ s ∈ allSites c later es, s.declares.isSome → s.name ∉ s.context.taken) :
    ((allNames es).Nodup ∧ ∀ x ∈ allNames es, x ∉ c.taken) ∧ ∀ b ∈ allBodies es, DeclaresOnce b := by
  match es with
  | [] => simp [allNames, allBodies]
  | e :: rest =>
    rw [allSites, forall_mem_append] at h
    obtain ⟨⟨hnodup, hfree⟩, hbodies⟩ := declaresOnce_of_fresh _ e h.1
    obtain ⟨⟨hnodup', hfree'⟩, hbodies'⟩ := allDeclareOnce_of_fresh _ later rest h.2
    have hapart : ∀ x ∈ allNames rest, x ∉ e.names ∧ x ∉ c.taken := fun x hx => by
      simpa [Context.adding] using hfree' x hx
    refine ⟨⟨?_, ?_⟩, forall_mem_append.2 ⟨hbodies, hbodies'⟩⟩
    · rw [allNames, nodup_append]
      exact ⟨hnodup', hnodup, fun x hx y hy hxy => (hapart x hx).1 (hxy ▸ hy)⟩
    · rw [allNames, forall_mem_append]
      exact ⟨fun x hx => (hapart x hx).2, hfree⟩

end

end Event

/-- The bodies of a program. -/
def bodies (program : List Stmt) : List (List Text × List Event) :=
  ([], allEvents program) :: Event.allBodies (allEvents program)

/-- The sites of a program. -/
def sites (program : List Stmt) : List Site :=
  Event.allSites ⟨[], [⟨[], []⟩], []⟩ [] (allEvents program)

/-- The assignment refers to a constant that it does not declare. -/
def Site.Reassigns (s : Site) : Prop :=
  s.declares = none ∧ (s.context.resolve s.name).map (·.binding) = some (.declared .const)

/-- The assignment declares nothing and refers to nothing that is bound before it and not beyond a function
statement. -/
def Site.Loose (s : Site) : Prop :=
  s.declares = none ∧ (s.context.resolve s.name).map (·.near) ≠ some true

instance (s : Site) : Decidable s.Reassigns := inferInstanceAs (Decidable (_ ∧ _))

instance (s : Site) : Decidable s.Loose := inferInstanceAs (Decidable (_ ∧ _))

end Transpiler.Script
