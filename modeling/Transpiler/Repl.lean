import Transpiler.Pipeline

/-!
# The interactive loop

The state behind the interactive prompt: the line being edited, the lines entered so far and a position among
them, the last results, and whether an evaluation is under way. Lines are accepted once the parser is there,
one at a time. The field that the line is edited in is not part of it: what the field keeps of a line that is put into
it is a parameter.
-/

namespace Transpiler

namespace Repl

/-- A result: the line it belongs to, its code, what it wrote, and how it failed. -/
structure Entry where
  source : Text
  code : Text
  output : List Text
  failure : Option Text
deriving DecidableEq, Repr

/-- How many results are kept. -/
def maxEntries : Nat := 20

/-- The keys that the prompt answers to. -/
inductive Key where
  | up
  | down
  | enter
  | quit
deriving DecidableEq, Repr

/-- What a key sets off. -/
inductive Effect where
  | nothing
  | quit
  | evaluate (source : Text)
deriving DecidableEq, Repr

end Repl

open Repl in
/-- The state of the prompt. -/
structure Repl (γ : Type) where
  value : Text
  history : List Text
  /-- A position in the history; its length is the position after the last line. -/
  index : Nat
  busy : Bool
  manager : Option (Manager γ)
  entries : List Entry
  failed : Option Fault

namespace Repl

variable {γ : Type}

/-- The prompt before anything is there. -/
def start : Repl γ := ⟨[], [], 0, false, none, [], none⟩

/-- The line was edited, and the field now holds this one. -/
def edit (t : Text) (s : Repl γ) : Repl γ := { s with value := t }

/-- Adds a result and drops the oldest beyond the limit. -/
def push (e : Entry) (s : Repl γ) : Repl γ :=
  let all := s.entries ++ [e]
  { s with entries := all.drop (all.length - maxEntries) }

/-- What the line `:diag` gives. -/
def diagnosticsEntry (m : Manager γ) : Entry :=
  let lines := Text.lines (Yaml.document m.entries)
  ⟨":diag", [], (lines.reverse.dropWhile (·.isEmpty)).reverse, none⟩

/-- Takes over the parser, or the reason why there is none. -/
def loaded (outcome : Except Fault (Manager γ)) (s : Repl γ) : Repl γ :=
  match outcome with
  | .ok m => { s with manager := some m }
  | .error fault => { s with failed := some fault }

/-- An evaluation has ended. -/
def evaluated (e : Entry) (s : Repl γ) : Repl γ := push e { s with busy := false }

/-- Takes a line into the history and has it evaluated. -/
def accept (src : Text) (m : Manager γ) (s : Repl γ) : Effect × Repl γ :=
  let history := s.history ++ [src]
  let s := { s with history := history, index := history.length, value := [] }
  if src = ":diag" then (.nothing, s.push (diagnosticsEntry m))
  else (.evaluate src, { s with busy := true })

/-- What a key does, with a field that keeps `field t` of a line `t`. -/
def press (field : Text → Text) (k : Key) (s : Repl γ) : Effect × Repl γ :=
  match k with
  | .quit => (.quit, { s with manager := s.manager.map (·.close) })
  | .up =>
    if s.index = 0 then (.nothing, s)
    else
      let i := s.index - 1
      (.nothing, { s with index := i }.edit (field ((s.history[i]?).getD [])))
  | .down =>
    if s.index + 1 < s.history.length then
      let i := s.index + 1
      (.nothing, { s with index := i }.edit (field ((s.history[i]?).getD [])))
    else (.nothing, { s with index := s.history.length, value := [] })
  | .enter =>
    let src := s.value.trimmed
    match s.manager with
    | none => (.nothing, s)
    | some m => if src.isEmpty || s.busy then (.nothing, s) else s.accept src m

end Repl

end Transpiler
