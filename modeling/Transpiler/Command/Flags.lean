import Transpiler.Command.Basic

/-!
# Flags

The words after the program's name: flags first, with one dash or two, then the rest. The value of a flag
follows an equals sign or is the next word; a switch is on without a value.
-/

namespace Transpiler.Command

/-- Why flags cannot be read. -/
inductive FlagFault where
  | help
  | badSyntax (word : Text)
  | unknown (name : Text)
  | missingValue (name : Text)
  | badSwitch (name value : Text)
deriving DecidableEq, Repr

/-- The fault in words. -/
def FlagFault.message : FlagFault → Text
  | .help => "help requested"
  | .badSyntax word => "bad flag syntax: " ++ word
  | .unknown name => "flag provided but not defined: -" ++ name
  | .missingValue name => "flag needs an argument: -" ++ name
  | .badSwitch name value =>
    "invalid boolean value " ++ value.quoted ++ " for -" ++ name ++ ": parse error"

/-- No flags given. -/
def Request.empty : Request := ⟨[], [], [], false, false, false, [], []⟩

/-- What a flag does to a request. -/
inductive Flag where
  | switch (set : Request → Bool → Request)
  | valued (set : Request → Text → Request)

/-- The flag of this name. -/
def flag? (name : Text) : Option Flag :=
  if name = "config" then some (.valued fun r v => { r with config := v })
  else if name = "module" then some (.valued fun r v => { r with modules := r.modules ++ [v] })
  else if name = "e" then some (.valued fun r v => { r with expression := v })
  else if name = "ast" then some (.switch fun r v => { r with dumpTree := v })
  else if name = "diag" then some (.switch fun r v => { r with diagnostics := v })
  else if name = "i" then some (.switch fun r v => { r with interactive := v })
  else none

/-- The Boolean a switch is given. -/
def switchValue? (t : Text) : Option Bool :=
  if [("1" : Text), "t", "T", "TRUE", "true", "True"].contains t then some true
  else if [("0" : Text), "f", "F", "FALSE", "false", "False"].contains t then some false
  else none

/-- A word without its dashes, if it is a flag. A lone dash is none. -/
def dashed? : Text → Option Text
  | a :: b :: rest =>
    if a != '-' then none else if b == '-' then some rest else some (b :: rest)
  | _ => none

/-- A flag that waits for its value. -/
structure Waiting where
  name : Text
  set : Request → Text → Request

/-- Reads words; the first is the value of the flag that waits for one, if one does. -/
def readWords : Option Waiting → Request → List Text → Except FlagFault Request
  | none, r, [] => .ok r
  | some w, _, [] => .error (.missingValue w.name)
  | some w, r, v :: rest => readWords none (w.set r v) rest
  | none, r, word :: rest =>
    match dashed? word with
    | none => .ok { r with args := word :: rest }
    | some [] => .ok { r with args := rest }
    | some (b :: letters) =>
      if b == '-' || b == '=' then .error (.badSyntax word)
      else
        let (name, value) := Text.cut '=' (b :: letters)
        match flag? name, value with
        | none, _ => .error (if name = "help" || name = "h" then .help else .unknown name)
        | some (.valued set), none => readWords (some ⟨name, set⟩) r rest
        | some (.valued set), some v => readWords none (set r v) rest
        | some (.switch set), none => readWords none (set r true) rest
        | some (.switch set), some v =>
          match switchValue? v with
          | some on => readWords none (set r on) rest
          | none => .error (.badSwitch name v)

/-- Reads the words of a command line. -/
def parseFlags (words : List Text) : Except FlagFault Request := readWords none .empty words

/-- The text that `-help` prints. -/
def usage : Text := Text.join "\n"
  ["Usage: transpiler [flags] [file]",
    "  -ast            Print the parsed tree as YAML instead of code",
    "  -config string  YAML configuration file",
    "  -diag           Print parser diagnostics as YAML",
    "  -e string       Source text to transpile instead of a file",
    "  -i              Interactive mode",
    "  -module value   Parser module location: path, file:// or http(s) URL (repeatable)", ""]

end Transpiler.Command
