import Transpiler.Guest.Loading
import Transpiler.Script.Options
import Transpiler.Session.Parser
import Transpiler.Stage.Basic

/-!
# Settings

All that can be set, by section, and what the parts of the program take from it. Settings are valid when no
part would refuse them later.
-/

namespace Transpiler

namespace Settings

/-- Where the parsing module comes from, and its size. -/
structure ModuleSection where
  sources : List Text
  memoryLimitPages : UInt32
  arenaBase : UInt32
deriving DecidableEq, Repr

/-- What the module sees of its surroundings. -/
structure HostSection where
  env : List (Text × Text)
  args : List Text
  preopens : List Text
deriving DecidableEq, Repr

/-- How code is written. -/
structure CodeSection where
  /-- The constants whose `new` is a constructor call; not given means the usual ones. -/
  baseTypes : Option (List Text)
  indent : Text
  print : Text
  timer : Text
  lookup : Text
deriving DecidableEq, Repr

/-- How code is evaluated. -/
structure RuntimeSection where
  /-- Nanoseconds. -/
  timeout : Int64
  maxTimerRuns : Int64
  isolate : Bool
deriving DecidableEq, Repr

/-- How to log. -/
structure LogSection where
  level : Text
  encoding : Text
  development : Bool
deriving DecidableEq, Repr

end Settings

open Settings in
/-- All the settings. -/
structure Settings where
  module : ModuleSection
  host : HostSection
  parser : ParserOptions
  code : CodeSection
  runtime : RuntimeSection
  log : LogSection
deriving DecidableEq, Repr

namespace Settings

/-- Where the module is looked for when nothing is set. -/
def usualSource : Text := "prism.wasm"

/-- The settings before any file. -/
def default : Settings where
  module := ⟨[usualSource], 0, 0⟩
  host := ⟨[], [], []⟩
  parser := ⟨"x = 1", false, false⟩
  code := ⟨some Script.Options.default.baseTypes, Script.Options.default.indent,
    Script.Options.default.print, Script.Options.default.timer, Script.Options.default.lookup⟩
  runtime := ⟨5000000000, Int64.ofNat Stage.usualTimerRuns, false⟩
  log := ⟨"info", "console", false⟩

/-! ## Validity -/

/-- The names of the levels of logging; the empty name is the usual one. -/
def levelNames : List Text :=
  ["", "debug", "info", "warn", "warning", "error", "dpanic", "panic", "fatal"]

/-- In small letters. -/
def smallLetters (t : Text) : Text :=
  t.map fun b => if 'A'.toUInt8 ≤ b && b ≤ 'Z'.toUInt8 then b + 32 else b

/-- What is wrong with some settings, the first of several things. -/
def problem? (s : Settings) (get : Text → Reply) : Option Fault :=
  if s.module.sources.isEmpty then
    some (.config "module.sources: at least one source is required" none)
  else match Source.ofLocations get s.module.sources with
    | .error fault => some (.config "module.sources" (some fault))
    | .ok _ =>
      if s.module.arenaBase % 8 ≠ 0 then
        some (.config "module.arena_base: must be 8-byte aligned" none)
      else if !levelNames.contains (smallLetters s.log.level) then
        some (.config "log.level" (some (.plain ("unrecognized level: " ++ s.log.level.quoted))))
      else if !([("" : Text), "json", "console"].contains s.log.encoding) then
        some (.config "log.encoding: must be json or console" none)
      else if s.runtime.timeout < 0 || s.runtime.maxTimerRuns < 0 then
        some (.config "runtime: timeout and max_timer_runs must not be negative" none)
      else none

/-! ## What the parts take -/

/-- The sources the settings name. -/
def sources (s : Settings) (get : Text → Reply) : Except Fault (List Source) :=
  Source.ofLocations get s.module.sources

/-- What the guest is given. -/
def guestConfig (s : Settings) : Guest.Config :=
  ⟨s.host.env, s.host.args, s.host.preopens, s.module.memoryLimitPages.toNat, s.module.arenaBase⟩

/-- How code is generated. -/
def scriptOptions (s : Settings) : Script.Options :=
  .ofGiven s.code.print s.code.timer s.code.lookup s.code.indent s.code.baseTypes

end Settings

end Transpiler
