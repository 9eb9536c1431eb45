import Transpiler.Fault.Reports
import Transpiler.Stage.Action
import Transpiler.Stage.Rendering
import Transpiler.Stage.Timeline

/-!
# The stage

The stage is the world a script acts on: elements and the ids they are registered under, timers on a virtual
clock, declared names, and the lines of output so far. Timers never fire on their own: `advance` moves the
clock and fires what becomes due, `runTimers` fires everything. A callback that fails stops both, and what
it did before stays done.
-/

namespace Transpiler

namespace Stage

/-- Names and their values; a name whose declaration was not reached yet has none. -/
abbrev Frame := List (Text × Option (Value Nat))

/-- A script to run later: what it is given, and the frames whose names it sees, innermost first. -/
structure Callback where
  script : Actions
  args : List (Value Nat)
  scope : List Nat

/-- How the stage runs scripts. -/
structure Options where
  /-- How many timers `runTimers` fires at most; zero means the usual number. -/
  maxTimerRuns : Nat
  /-- Whether names declared by one script are unknown to the next. -/
  isolate : Bool
deriving DecidableEq, Repr

/-- The usual limit of `runTimers`. -/
def usualTimerRuns : Nat := 10000

end Stage

open Stage in
/-- The world a script acts on. -/
structure Stage where
  options : Options
  timeline : Timeline Callback
  output : Array Text
  elements : Array Element
  /-- The ids under which elements can be looked up. -/
  registry : List (Text × Nat)
  /-- Declared names. The first frame is seen by all scripts. -/
  frames : Array Frame

namespace Stage

/-- Before the first script. -/
def new (options : Options) : Stage := ⟨options, .start, #[], #[], [], #[[]]⟩

/-- How many timers `runTimers` fires at most. -/
def timerRuns (o : Options) : Nat := if o.maxTimerRuns = 0 then usualTimerRuns else o.maxTimerRuns

/-- A step of a script. What was done before a failure stays. -/
abbrev Act := EStateM Thrown Stage

/-- What is known where an action is done. -/
structure Place where
  /-- The frames whose names are seen, innermost first. -/
  scope : List Nat
  /-- What the running callback was given. -/
  args : List (Value Nat)

/-! ## Elements -/

/-- The element with this id. -/
def find? (s : Stage) (id : Text) : Option Nat := getField? id s.registry

/-- The fields of an element. -/
def fields (s : Stage) (r : Nat) : Element := (s.elements[r]?).getD []

/-- A literal's value. -/
def value (s : Stage) (l : Literal) : Value Nat := l.resolve s.find?

/-- The first of some arguments; nothing when missing. -/
def firstOf (args : List (Value Nat)) : Value Nat := args.headD .undefined

/-- The fields of a value, in order: those of a record or an element, the items of a list, the units of a
text. -/
def fieldsOf (s : Stage) : Value Nat → List (Text × Value Nat)
  | .text t => (units t).zipIdx.map fun (u, i) => (Text.ofNat i, .text u)
  | .list items => items.zipIdx.map fun (v, i) => (Text.ofNat i, v)
  | .record fields => orderedFields fields
  | .element r => orderedFields (s.fields r)
  | _ => []

/-- An element as created. -/
def freshElement : Element :=
  [("x", .number (.ofInt 0)), ("y", .number (.ofInt 0)), ("visible", .bool true)]

/-- The id an element has, whether or not it is registered under it. -/
def elementId? (e : Element) : Option Text :=
  match getField? "id" e with
  | none | some .undefined | some .null => none
  | some v => some v.toText

/-- Sets an element's field. -/
def setField (r : Nat) (key : Text) (v : Value Nat) (s : Stage) : Stage :=
  { s with elements := s.elements.modify r (putField key v) }

/-- Makes an element with the fields of a value, and registers it if it has an id. -/
def createElement (options : Value Nat) (s : Stage) : Nat × Stage :=
  let e := (s.fieldsOf options).foldl (fun e f => putField f.1 f.2 e) freshElement
  let r := s.elements.size
  let s := { s with elements := s.elements.push e }
  (r, match elementId? e with
    | some id => { s with registry := putField id r s.registry }
    | none => s)

/-- Unregisters an id, and says whether it was registered. -/
def removeId (id : Text) (s : Stage) : Bool × Stage :=
  ((s.find? id).isSome, { s with registry := s.registry.filter (·.1 != id) })

/-- A method of elements: its result, and the stage afterwards. -/
def method? (name : Text) (args : List (Value Nat)) (r : Nat) (s : Stage) : Option (Value Nat × Stage) :=
  if name = "move_to" then
    some (.element r, (s.setField r "x" (firstOf args)).setField r "y" (firstOf (args.drop 1)))
  else if name = "show" then some (.element r, s.setField r "visible" (.bool true))
  else if name = "hide" then some (.element r, s.setField r "visible" (.bool false))
  else if name = "remove" then
    match elementId? (s.fields r) with
    | none => some (.bool false, s)
    | some id => let (removed, s) := s.removeId id; some (.bool removed, s)
  else none

/-! ## Doing actions -/

/-- Writes a line of output. -/
def writeLine (line : Text) : Act Unit :=
  modify fun s => { s with output := s.output.push line }

/-- Writes values as a line. -/
def logValues (vs : List (Value Nat)) : Act Unit := do
  let s ← get
  writeLine (Text.join " " (vs.map (·.shown s.elements)))

/-- Schedules a callback and gives the timer's number. -/
def schedule (delay : Value Nat) (callback : Callback) : Act Nat :=
  modifyGet fun s =>
    let (id, timeline) := s.timeline.schedule delay.toNumber callback
    (id, { s with timeline := timeline })

/-- The value of a name, seen from a list of frames. -/
def nameValue (s : Stage) (name : Text) : List Nat → Except Thrown (Value Nat)
  | [] => .error (.notDefined name)
  | f :: outer =>
    match getField? name ((s.frames[f]?).getD []) with
    | some (some v) => .ok v
    | some none => .error .notYetDefined
    | none => nameValue s name outer

/-- Calls a method of an element. A field of the same name hides it. -/
def callMethod (r : Nat) (name : Text) (args : List (Value Nat)) : Act (Value Nat) := do
  let s ← get
  match getField? name (s.fields r) with
  | some v => throw (if v.isCompound then .compoundCalled v.toText else .scalarCalled v.toText)
  | none =>
    match s.method? name args r with
    | some (result, s) => set s; pure result
    | none => throw (.noMember name)

/-- Calls a method of what an id is registered for. -/
def callOn (target : Value Nat) (name : Text) (args : List (Value Nat)) : Act (Value Nat) :=
  match target with
  | .element r => callMethod r name args
  | _ => throw (.memberOfNothing name)

/-- The element, or null. -/
def lookUp (s : Stage) (id : Value Nat) : Value Nat :=
  match s.find? id.toText with
  | some r => .element r
  | none => .null

/-- Performs an action. -/
def perform (p : Place) (a : Action) : Act Unit := do
  let s ← get
  match a with
  | .log args => logValues (args.map s.value)
  | .logArguments => logValues p.args
  | .timeout delay body args =>
    let id ← schedule (s.value delay) ⟨body, args.map s.value, p.scope⟩
    writeLine ("timer " ++ Text.ofNat id)
  | .timeoutOf _ => throw .callbackNotFunction
  | .again label delay =>
    logValues [s.value label]
    let _ ← schedule (s.value delay) ⟨[.again label delay], [], p.scope⟩
  | .clear id =>
    match (s.value id).toInteger? with
    | some n => set { s with timeline := s.timeline.cancel n }
    | none => pure ()
  | .fail message => throw (.error message)
  | .declare name v =>
    let v := s.value v
    match p.scope with
    | f :: _ => set { s with frames := s.frames.modify f (putField name (some v)) }
    | [] => pure ()
  | .showDeclared name =>
    match s.nameValue name p.scope with
    | .ok v => logValues [v]
    | .error thrown => throw thrown
  | .create args =>
    let (r, s) := s.createElement (firstOf (args.map s.value))
    set s
    logValues [.element r]
  | .lookup args => logValues [s.lookUp (firstOf (args.map s.value))]
  | .call id name args =>
    let result ← callOn (s.lookUp (s.value id)) name (args.map s.value)
    logValues [result]
  | .chain id args =>
    let target ← callOn (s.lookUp (s.value id)) "hide" []
    let target ← callOn target "move_to" (args.map s.value)
    let target ← callOn target "show" []
    let target ← callOn target "hide" []
    logValues [target]
  | .assign id key v =>
    match s.lookUp (s.value id) with
    | .element r => set (s.setField r key (s.value v))
    | _ => throw .nothingToSet

/-- Does actions in order, until one fails. -/
def performAll (p : Place) : Actions → Act Unit
  | [] => pure ()
  | a :: rest => do
    perform p a
    performAll p rest

/-- A frame whose names have no values yet. -/
def unreached (names : List Text) : Frame := names.map fun n => (n, none)

/-- Runs a script in a frame of its own. -/
def runInside (outer : List Nat) (args : List (Value Nat)) (script : Actions) : Act Unit := do
  let s ← get
  set { s with frames := s.frames.push (unreached (declaredNames script)) }
  performAll ⟨s.frames.size :: outer, args⟩ script

/-- The first declared name that all scripts see already. -/
def clash? (s : Stage) (script : Actions) : Option Text :=
  (declaredNames script).find? fun n => (getField? n ((s.frames[0]?).getD [])).isSome

/-- Runs a script in the frame all scripts see. Names can be declared there only once: a script that
declares one again is not begun. -/
def runOpenly (script : Actions) : Act Unit := do
  let s ← get
  match s.clash? script with
  | some name => throw (.redeclared name)
  | none =>
    set { s with frames := s.frames.modify 0 (· ++ unreached (declaredNames script)) }
    performAll ⟨[0], []⟩ script

/-- Runs a script. -/
def evaluate (script : Actions) : Act Unit := do
  let s ← get
  if s.options.isolate then runInside [0] [] script else runOpenly script

/-! ## Timers -/

/-- How a firing of timers went: how many fired, and what stopped it. -/
structure Fired where
  ran : Nat
  thrown : Option Thrown
  stage : Stage

/-- Fires timers due at `limit`, at most `runs` of them, after `ran` others. -/
def fire (limit : Int64) : (runs ran : Nat) → Stage → Fired
  | 0, ran, s => ⟨ran, none, s⟩
  | runs + 1, ran, s =>
    match s.timeline.next? limit with
    | none => ⟨ran, none, s⟩
    | some (t, timeline) =>
      let c := t.callback
      match runInside c.scope c.args c.script { s with timeline := timeline } with
      | .error thrown s => ⟨ran + 1, some thrown, s⟩
      | .ok _ s => fire limit runs (ran + 1) s

/-- The number of runs that is as good as no limit. -/
def unlimited : Nat := Nat.pow 2 63 - 1

/-- A callback threw. -/
def callbackFault (thrown : Thrown) : Fault :=
  .wrap .execute .execution "timer callback" (.plain thrown.message)

/-- Timers are left. -/
def pendingFault (runs pending : Nat) : Fault :=
  .report ⟨.execute, .execution, [], "timers still pending after " ++ Text.ofNat runs ++ " runs", .number pending⟩

/-- Moves the clock forward and fires what becomes due on the way. A failing callback stops it, with the
clock at that callback's time. -/
def advance (d : Int64) (s : Stage) : Nat × Option Fault × Stage :=
  let target := s.timeline.now + max d 0
  let f := fire target unlimited 0 s
  match f.thrown with
  | some thrown => (f.ran, some (callbackFault thrown), f.stage)
  | none =>
    (f.ran, none, { f.stage with timeline := { f.stage.timeline with now := target } })

/-- Fires every pending timer, those scheduled meanwhile included, up to the limit on runs. -/
def runTimers (s : Stage) : Nat × Option Fault × Stage :=
  let f := fire Timeline.forever (timerRuns s.options) 0 s
  match f.thrown with
  | some thrown => (f.ran, some (callbackFault thrown), f.stage)
  | none =>
    let left := f.stage.timeline.pending.length
    (f.ran, if left = 0 then none else some (pendingFault f.ran left), f.stage)

/-! ## From outside -/

/-- Empties the output. -/
def takeOutput (s : Stage) : List Text × Stage := (s.output.toList, { s with output := #[] })

/-- The ids, sorted. -/
def ids (s : Stage) : List Text := Text.sorted (s.registry.map (·.1))

/-- Drops all timers and unregisters all elements. -/
def close (s : Stage) : Stage :=
  { s with timeline := { s.timeline with pending := [] }, registry := [] }

end Stage

end Transpiler
