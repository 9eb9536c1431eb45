import Transpiler.Decoding.Chain
import Transpiler.Guest.Instance

/-!
# The parser

A parser owns one instance of the parsing module. Whatever the module does, and even without one, a source
always yields a tree: what the module answers goes through the chain of decoders, and when it answers
nothing usable the source is read line by line, with a warning that says why. A breakdown of the host is not caught
here. It ends the program, so that what a parser does after one is never seen.
-/

namespace Transpiler

open Guest (Instance Stats)

/-- What brings instances: the outcome of its first, second, … call, and how often it was called. Without
outcomes there is no loader at all. -/
structure Loader (γ : Type) where
  outcomes : Option (Nat → Except Fault (Instance γ))
  calls : Nat

namespace Loader

variable {γ : Type}

/-- The next instance, numbered by the call that brought it. -/
def load (l : Loader γ) : Except Fault (Instance γ) × Loader γ :=
  match l.outcomes with
  | none => (.error (.notInitialized .load "module loader"), l)
  | some outcome =>
    ((outcome l.calls).map fun i => { i with serial := l.calls }, { l with calls := l.calls + 1 })

end Loader

/-- How a parser is set up. -/
structure ParserOptions where
  /-- What to parse once after loading; nothing given means a small program. -/
  warmupSource : Text
  skipWarmup : Bool
  /-- Keep the comments of serialized trees. -/
  keepComments : Bool
deriving DecidableEq, Repr

/-- The usual setup. -/
def ParserOptions.default : ParserOptions := ⟨[], false, false⟩

/-- A parser's state and history at a glance. -/
structure Snapshot where
  lastTier : Tier
  memory : Stats
  parses : Nat
  warnings : Nat
  initialized : Bool
  ready : Bool
  lastSuccess : Bool
deriving DecidableEq, Repr

/-- The snapshot of a parser that has done nothing yet. -/
def Snapshot.zero : Snapshot := ⟨⟨[]⟩, .zero, 0, 0, false, false, false⟩

/-- A parser and the instance it owns, if any. -/
structure Parser (γ : Type) where
  owned : Option (Instance γ)
  snapshot : Snapshot

/-- The source read line by line because nothing better was to be had. -/
def Parsed.fallback (source : Text) : Parsed := { Parsed.ofLines source with tier := .fallback }

/-- What stands for a result when nothing comes back. -/
def Parsed.nothing : Parsed := ⟨none, [], ⟨[]⟩, .empty, false⟩

/-- The result with one more warning in front of the others. -/
def Parsed.warnFirst (p : Parsed) (message : Text) : Parsed :=
  { p with diagnostics :=
    { p.diagnostics with warnings := .warning message :: p.diagnostics.warnings } }

namespace Parser

variable {γ : Type}

/-- A parser without an instance. -/
def new : Parser γ := ⟨none, .zero⟩

/-- What is parsed once after loading. -/
def warmupSource (o : ParserOptions) : Text :=
  if o.warmupSource.isEmpty then "x = 1" else o.warmupSource

/-- The instance after its first parse. Whether that parse succeeds does not matter. -/
def warmUp (o : ParserOptions) (i : Instance γ) : Instance γ :=
  if o.skipWarmup then i else (i.serialize (warmupSource o)).2

/-- Loads the module, unless one is there. -/
def start (o : ParserOptions) (l : Loader γ) (p : Parser γ) : Except Fault Unit × Loader γ × Parser γ :=
  match p.owned with
  | some _ => (.ok (), l, p)
  | none =>
    match l.load with
    | (.error fault, l) => (.error fault, l, p)
    | (.ok i, l) =>
      (.ok (), l, ⟨some (warmUp o i), { p.snapshot with initialized := true, ready := true }⟩)

/-- The warning for a module that gave up, which it may do after a usable answer. -/
def exitWarning (code : UInt32) : Text := "parser exited with code " ++ Text.ofNat code.toNat

/-- The tree for an answer of the module, or for none. -/
def treeOf (o : ParserOptions) (decoder : Option Strategy) (source : Text) :
    Except Fault Text → Parsed
  | .error fault => failed fault
  | .ok data =>
    match (Chain.usual decoder o.keepComments).decode data source with
    | .ok p => p
    | .error fault => failed fault
where
  /-- The tree when the module could not be used. -/
  failed (fault : Fault) : Parsed :=
    let p := Parsed.fallback source
    { p with diagnostics := p.diagnostics.warn ("parse failed: " ++ fault.message) }

/-- The bytes of an answer, or why there are none. -/
def answerBytes (a : Guest.Answer) : Except Fault Text :=
  match a.fault, a.status with
  | some fault, _ => .error fault
  | none, some s => .ok s.bytes
  | none, none => .ok []

/-- The warning about the exit in an answer, if the code tells of trouble. -/
def exitMessage? (a : Guest.Answer) : Option Text := do
  let status ← a.status
  let code ← status.exit
  if code = 0 then none else some (exitWarning code)

/-- The snapshot after a parse. -/
def record (s : Snapshot) (p : Parsed) (stats : Option Stats) : Snapshot :=
  { s with
    parses := s.parses + 1
    warnings := s.warnings + p.diagnostics.warnings.length
    lastTier := p.tier
    lastSuccess := p.success && p.tier != .fallback
    memory := stats.getD s.memory }

/-- Parses a source. `decoder` is the one registered from outside. Nothing comes back when the host breaks down. -/
def parse (o : ParserOptions) (decoder : Option Strategy) (source : Text) (p : Parser γ) : Parsed × Parser γ :=
  match p.owned with
  | none =>
    let tree := treeOf o decoder source (.error (.notInitialized .parse "parser"))
    (tree, { p with snapshot := record p.snapshot tree none })
  | some i =>
    let (answer, i) := i.serialize source
    if answer.broken then (.nothing, { p with owned := some i })
    else
      let tree := treeOf o decoder source (answerBytes answer)
      let tree := match exitMessage? answer with
        | some message => tree.warnFirst message
        | none => tree
      (tree, ⟨some i, record p.snapshot tree (some i.stats)⟩)

/-- Ends the instance. The parser can be initialized again. -/
def close (p : Parser γ) : Parser γ :=
  match p.owned with
  | none => p
  | some _ => ⟨none, { p.snapshot with ready := false }⟩

end Parser

end Transpiler
