import Transpiler.Pipeline
import Transpiler.Settings.Reading

/-!
# The command

One run of the program: settings are found, a source is read, parsed and turned into code, and the code, the
tree or a report is written. The first thing that fails ends the run. A path in its shortest form has no
empty and no `.` parts, and `..` only at its start.
-/

namespace Transpiler.Path

/-- What separates the parts of a path. -/
def slash : UInt8 := '/'

/-- Whether a path starts at the root. -/
def isRooted (t : Text) : Bool := t.head? == some slash

/-- The parts of a path after one more part, last part first. Above the root there is only the root. -/
def step (rooted : Bool) (parts : List Text) (part : Text) : List Text :=
  if part.isEmpty || part = "." then parts
  else if part = ".." then
    match parts with
    | last :: rest => if last = ".." then part :: parts else rest
    | [] => if rooted then [] else [part]
  else part :: parts

/-- The shortest form of a path. -/
def clean (t : Text) : Text :=
  let parts := ((t.splitOn slash).foldl (step (isRooted t)) []).reverse
  let joined := Text.join [slash] parts
  if isRooted t then slash :: joined else if joined.isEmpty then "." else joined

/-- A path from the root. -/
def absolute (directory t : Text) : Text :=
  clean (if isRooted t then t else directory ++ [slash] ++ t)

end Transpiler.Path

namespace Transpiler.Command

/-- What a run finds around it. -/
structure World where
  directory : Text
  disk : Disk
  /-- Answers requests for remote modules. -/
  get : Text → Reply

/-- What a run is asked for. -/
structure Request where
  /-- The path of a file with settings; none if empty. -/
  config : Text
  /-- A source given directly; none if empty. -/
  expression : Text
  /-- Locations of the module, instead of those in the settings. -/
  modules : List Text
  dumpTree : Bool
  diagnostics : Bool
  interactive : Bool
  args : List Text
  input : Text

/-- The settings in a file. -/
def loadSettings (w : World) (path : Text) : Except Fault Settings :=
  let path := Path.absolute w.directory path
  match w.disk path with
  | .error message => .error (.config ("open " ++ path) (some (.plain message)))
  | .ok image =>
    match Settings.read w.get image.text with
    | .error refusal => .error (.config ("parse " ++ path) (some refusal.fault))
    | .ok s => .ok s

/-- The settings of a run. -/
def settings (w : World) (r : Request) : Except Fault Settings := do
  let s ← if r.config.isEmpty then pure Settings.default else loadSettings w r.config
  if r.modules.isEmpty then return s
  let s := { s with module := { s.module with sources := r.modules } }
  match s.problem? w.get with
  | some fault => .error fault
  | none => return s

/-- The source of a run: given directly, in a file, or waiting to be read. -/
def source (w : World) (r : Request) : Except Fault Text :=
  if !r.expression.isEmpty then .ok r.expression
  else match r.args with
    | [] => .ok r.input
    | path :: _ =>
      if path = "-" then .ok r.input
      else match w.disk path with
        | .ok image => .ok image.text
        | .error message => .error (.invalidInput .config ("read " ++ path ++ ": " ++ message))

/-- Loads the module from the first source that delivers. -/
def loader (w : World) (s : Settings) (sources : List Source) : Loader UInt32 :=
  ⟨some fun _ => do
    let (image, _) ← Source.fetchFirst w.disk false sources []
    Guest.Loading.instantiate image s.guestConfig, 0⟩

/-- The manager of a run. -/
def manager (w : World) (s : Settings) : Except Fault (Manager UInt32) := do
  let sources ← s.sources w.get
  return .new s.parser (loader w s sources)

/-- What a run writes about a result: the tree or the code, and a report if one is asked for. -/
def written (r : Request) (t : Transpiled) (m : Manager UInt32) : Text :=
  let main : Text := if r.dumpTree then Yaml.document t.parsed.entries
    else if t.code.isEmpty then []
    else t.code ++ "\n"
  main ++ if r.diagnostics then Yaml.document (t.entries m) else []

/-- One run: what it writes, or how it fails. -/
def run (w : World) (r : Request) : Except Fault Text := do
  let s ← settings w r
  if r.interactive then .error (.invalidInput .config "interactive mode needs a terminal")
  let src ← source w r
  let m ← manager w s
  let (parsed, m) := m.parse src
  return written r (.ofParsed s.scriptOptions (← parsed)) m

/-- A manager with the module loaded. -/
def bringUp (w : World) (s : Settings) : Except Fault (Manager UInt32) := do
  let m ← manager w s
  let (done, m) := m.ensure
  done
  return m

end Transpiler.Command
