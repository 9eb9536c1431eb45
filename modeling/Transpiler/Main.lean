import Transpiler.Command.Flags

/-!
# The program

Reads the files a run may need, runs, and writes what comes of it.
-/

namespace Transpiler.Program

open Command

/-- A file, or the words for why it cannot be read. -/
def readFile (path : Text) : IO (Except Text Text) := do
  match String.fromUTF8? (ByteArray.mk path.toArray) with
  | none => return .error ("open " ++ path ++ ": no such file or directory")
  | some name =>
    try
      let bytes ← IO.FS.readBinFile name
      return .ok bytes.data.toList
    catch e =>
      match e with
      | .noFileOrDirectory .. => return .error ("open " ++ path ++ ": no such file or directory")
      | _ => return .error ("open " ++ path ++ ": " ++ Text.ofString (toString e))

/-- Files by path, as read. -/
abbrev Held := List (Text × Except Text Text)

/-- Reads the files. -/
def readFiles (paths : List Text) : IO Held := paths.mapM fun p => do return (p, ← readFile p)

/-- The world with these files only. -/
def worldOf (directory : Text) (held : Held) : World where
  directory := directory
  disk := fun path =>
    match held.find? fun h => h.1 == path with
    | some (_, .ok t) => .ok (.bytes t)
    | some (_, .error message) => .error message
    | none => .error ("open " ++ path ++ ": no such file or directory")
  get := fun _ => .failure "remote modules cannot be fetched"

/-- The sources that are files. -/
def filePaths (sources : List Source) : List Text :=
  sources.filterMap fun
    | .file path => some path
    | _ => none

/-- The module files a request needs. -/
def modulePaths (w : World) (r : Request) : List Text :=
  match settings w r with
  | .error _ => []
  | .ok s => filePaths ((s.sources w.get).toOption.getD [])

/-- Whether a run takes its source from what is waiting to be read. -/
def wantsInput (r : Request) : Bool :=
  r.expression.isEmpty && (r.args.isEmpty || r.args.head? == some "-") && !r.interactive

/-- Writes the bytes of a text. -/
def write (out : IO.FS.Stream) (t : Text) : IO Unit := out.write (ByteArray.mk t.toArray)

/-- Serves a request. -/
def start (r : Request) : IO UInt32 := do
  let directory := Text.ofString (toString (← IO.currentDir))
  let config := if r.config.isEmpty then [] else [Path.absolute directory r.config]
  let held ← readFiles config
  let more ← readFiles (modulePaths (worldOf directory held) r ++ r.args.take 1)
  let input ← if wantsInput r then (← IO.getStdin).readBinToEnd else pure ByteArray.empty
  match run (worldOf directory (held ++ more)) { r with input := input.data.toList } with
  | .ok t =>
    write (← IO.getStdout) t
    return 0
  | .error fault =>
    write (← IO.getStderr) ("Error: " ++ fault.message ++ "\n")
    return 1

end Transpiler.Program

open Transpiler Command in
/-- The program. -/
def main (args : List String) : IO UInt32 := do
  match parseFlags (args.map Text.ofString) with
  | .ok r => Program.start r
  | .error .help =>
    Program.write (← IO.getStderr) usage
    return 0
  | .error fault =>
    Program.write (← IO.getStderr) (fault.message ++ "\n" ++ usage)
    return 2
