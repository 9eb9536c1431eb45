import Transpiler.Session.Parser

/-!
# The manager

A manager owns the parser and sees to it that it is loaded once: callers that come during a load wait for it. A failed
load is tried again by the next call, except when the module imports what nobody provides. What happens is a sequence
of steps, each done in one go: looking whether there is anything to do (`settled`), beginning a load (`takeOff`),
having its outcome (`arrive`), publishing that (`endLoad`), closing and resetting. A load that began before a close is
discarded when it ends.
-/

namespace Transpiler

open Guest (Instance)

/-- The states of a manager. -/
inductive LifeState where
  | uninitialized
  | initializing
  | ready
  | failed
deriving DecidableEq, Repr

/-- The state's name. -/
def LifeState.word : LifeState → Text
  | .uninitialized => "uninitialized"
  | .initializing => "initializing"
  | .ready => "ready"
  | .failed => "failed"

/-- A load under way: how often the manager had been closed when it began, and what it has brought, if it is
that far. -/
structure Flight (γ : Type) where
  generation : Nat
  outcome : Option (Except Fault (Parser γ))

/-- What the end of a load leaves to be done: the answer for all who waited, and a parser to close. -/
structure Landing (γ : Type) where
  answer : Except Fault Unit
  discarded : Option (Parser γ)

/-- Holds at most one parser. -/
structure Manager (γ : Type) where
  options : ParserOptions
  loader : Loader γ
  /-- The decoder registered from outside. -/
  registered : Option Strategy
  parser : Option (Parser γ)
  lastFault : Option Fault
  state : LifeState
  loads : Nat
  closes : Nat
  flight : Option (Flight γ)

namespace Manager

variable {γ : Type}

/-- Before the first request. -/
def new (options : ParserOptions) (loader : Loader γ) : Manager γ :=
  ⟨options, loader, none, none, none, .uninitialized, 0, 0, none⟩

/-- The answer to a caller for whom nothing has to be loaded: the parser is ready, or it is known that no
load can succeed. -/
def settled (m : Manager γ) : Option (Except Fault Unit) :=
  match m.state, m.lastFault with
  | .ready, _ => some (.ok ())
  | .failed, some fault => if fault.isKind .missingImport then some (.error fault) else none
  | _, _ => none

/-- Begins a load, unless one is under way or the parser is ready. -/
def takeOff (m : Manager γ) : Manager γ :=
  match m.flight with
  | some _ => m
  | none =>
    if m.state = .ready then m
    else
      { m with
        state := .initializing
        loads := m.loads + 1
        flight := some ⟨m.closes, none⟩ }

/-- The load under way has brought a parser or a fault. -/
def arrive (m : Manager γ) : Manager γ :=
  match m.flight with
  | some ⟨generation, none⟩ =>
    match Parser.new.start m.options m.loader with
    | (outcome, loader, p) =>
      { m with
        loader := loader
        flight := some ⟨generation, some (outcome.map fun _ => p)⟩ }
  | _ => m

/-- Begins a load and waits for what it brings, unless one is under way or the parser is ready. -/
def beginLoad (m : Manager γ) : Manager γ := m.takeOff.arrive

/-- The fault of callers whose manager was closed while they waited. -/
def closedFault : Fault :=
  .report (Fault.simple .load .notInitialized "manager closed during initialization")

/-- Ends a load: its parser is published, or discarded if the manager was closed in the meantime. -/
def endLoad (m : Manager γ) : Landing γ × Manager γ :=
  match m.flight with
  | some ⟨generation, some outcome⟩ =>
    let m := { m with flight := none }
    match outcome with
    | .error fault =>
      if m.closes ≠ generation then (⟨.error fault, none⟩, m)
      else (⟨.error fault, none⟩, { m with state := .failed, lastFault := some fault })
    | .ok p =>
      if m.closes ≠ generation then (⟨.error closedFault, some p⟩, m)
      else (⟨.ok (), none⟩, { m with parser := some p, state := .ready, lastFault := none })
  | _ => (⟨.ok (), none⟩, m)

/-- Sees to it that the parser is loaded. -/
def ensure (m : Manager γ) : Except Fault Unit × Manager γ :=
  match m.settled with
  | some answer => (answer, m)
  | none =>
    let (landing, m) := m.beginLoad.endLoad
    (landing.answer, m)

/-- Parses with the parser held. -/
def parseReady (m : Manager γ) (source : Text) : Except Fault Parsed × Manager γ :=
  match m.parser with
  | none => (.error (.notInitialized .parse "parser"), m)
  | some p =>
    let (tree, p) := p.parse m.options m.registered source
    (.ok tree, { m with parser := some p })

/-- Parses a source, loading the parser first if need be. -/
def parse (m : Manager γ) (source : Text) : Except Fault Parsed × Manager γ :=
  match m.ensure with
  | (.error fault, m) => (.error fault, m)
  | (.ok _, m) => m.parseReady source

/-- Sets or removes the decoder registered from outside. -/
def register (m : Manager γ) (decoder : Option Strategy) : Manager γ :=
  { m with registered := decoder }

/-- Forgets a failure, so that the next call loads again. -/
def reset (m : Manager γ) : Manager γ :=
  match m.state with
  | .failed => { m with state := .uninitialized, lastFault := none }
  | _ => m

/-- Gives up the parser, which is left to be closed. -/
def detach (m : Manager γ) : Option (Parser γ) × Manager γ :=
  (m.parser, { m with parser := none, state := .uninitialized, closes := m.closes + 1 })

/-- Gives up the parser and whatever it holds. -/
def close (m : Manager γ) : Manager γ := m.detach.2

/-- The snapshot of the parser; an empty one without a parser. -/
def snapshot (m : Manager γ) : Snapshot := (m.parser.map (·.snapshot)).getD .zero

/-- The wording of the last failure; nothing if there is none. -/
def lastFaultText (m : Manager γ) : Text := (m.lastFault.map (·.message)).getD []

end Manager

end Transpiler
