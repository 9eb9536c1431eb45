import Transpiler.Wire.Guarded

/-!
# The chain of decoding strategies

A serialized tree is handed to strategies in order, and the first that gives a tree wins. A strategy that
fails leaves a warning; one that does not apply leaves nothing. The usual chain is a decoder registered
from outside, the serialized tree, and the source read line by line, which never fails.
-/

namespace Transpiler

/-- How a strategy ended. -/
inductive Outcome where
  | result (p : Parsed)
  /-- Neither a result nor a failure. -/
  | nothing
  | failed (fault : Fault)
  /-- The strategy broke down, with a message. -/
  | crashed (message : Text)

/-- A named way of turning serialized bytes and their source into a tree. -/
structure Strategy where
  name : Text
  run : (data source : Text) → Outcome

namespace Strategy

/-- Decodes the bytes the guest wrote. -/
def binary (keepComments : Bool) : Strategy where
  name := Tier.binary.word
  run data source :=
    match Wire.Document.decode data with
    | .error fault => .failed fault
    | .ok doc =>
      match doc.lowered source keepComments with
      | .ok p => .result p
      | .error breakdown => .crashed breakdown.message

/-- Splits the source into lines. -/
def heuristic : Strategy where
  name := Tier.heuristic.word
  run _ source := .result (.ofLines source)

/-- The strategy of the decoder registered from outside; it does not apply while there is none. -/
def registered (decoder : Option Strategy) : Strategy where
  name := Tier.external.word
  run data source :=
    match decoder with
    | none => .failed .skipped
    | some s =>
      match s.run data source with
      | .result p => .result { p with tier := .external }
      | outcome => outcome

/-- A strategy of the host's own, with a label. -/
def ofFunction (label : Text) (run : (data source : Text) → Outcome) : Strategy where
  name := if label.isEmpty then "func" else label
  run := run

end Strategy

/-- The result of an outcome, if it is a success with a root; a missing body counts as an empty one. -/
def Outcome.accepted : Outcome → Except Fault Parsed
  | .crashed message => .error (.plain ("panic: " ++ message))
  | .failed fault => .error fault
  | .nothing => .error (.plain "no result")
  | .result p =>
    if !p.success then .error (.plain "unsuccessful result")
    else match p.root with
      | none => .error (.plain "result has no root node")
      | some root => .ok { p with root := some { root with body := some (root.body.getD []) } }

/-- Strategies in the order they are tried. -/
structure Chain where
  strategies : List Strategy

namespace Chain

/-- The chain a parser uses. -/
def usual (decoder : Option Strategy) (keepComments : Bool) : Chain :=
  ⟨[.registered decoder, .binary keepComments, .heuristic]⟩

/-- The strategies' names, in order. -/
def names (c : Chain) : List Text := c.strategies.map (·.name)

/-- Warns that `s` failed. -/
def failureWarning (s : Strategy) (fault : Fault) : Text :=
  s.name ++ " decoder failed: " ++ fault.message

/-- The fault when every strategy failed. -/
def exhausted (warnings : Diagnostics) (attempts : List Fault) : Fault :=
  let detail := "all " ++ Text.ofNat attempts.length ++ " decoder tiers failed"
  let report : Report := ⟨.decode, .invalidData, [], detail, .diagnostics warnings⟩
  if attempts.isEmpty then .report report else .caused report (.joined attempts)

/-- A result as the chain gives it: with its source, and with the warnings of earlier tiers in front. -/
def completed (source : Text) (warnings : Diagnostics) (p : Parsed) : Parsed :=
  { p with
    source := if p.source.isEmpty then source else p.source
    diagnostics := if warnings.warnings.isEmpty then p.diagnostics
      else warnings.append p.diagnostics }

/-- Tries the strategies, each called by `call`, given the warnings and faults of those that failed before.
What calling a strategy involves is left to the caller. -/
def runWith {m : Type → Type} [Monad m] (call : Strategy → m Outcome) (source : Text)
    (warnings : Diagnostics) (attempts : List Fault) : List Strategy → m (Except Fault Parsed)
  | [] => pure (.error (exhausted warnings attempts))
  | s :: rest => do
    let outcome ← call s
    match outcome.accepted with
    | .ok p => pure (.ok (completed source warnings p))
    | .error fault =>
      if fault.meansSkip then runWith call source warnings attempts rest
      else
        runWith call source (warnings.warn (failureWarning s fault)) (attempts ++ [fault]) rest

/-- The result of the first strategy that succeeds. -/
def decode (c : Chain) (data source : Text) : Except Fault Parsed :=
  Id.run (runWith (fun s => pure (s.run data source)) source .empty [] c.strategies)

end Chain

end Transpiler
