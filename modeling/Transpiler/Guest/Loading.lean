import Transpiler.Guest.Instance
import Transpiler.Source.Basic

/-!
# Loading a guest

From the image of a module to an instance: the image has to be a module at all, to fit the memory limit,
to import nothing that the host does not offer, and to export a parser.
-/

namespace Transpiler.Guest

/-- The surroundings a guest is loaded into. -/
structure Config where
  env : List (Text × Text)
  args : List Text
  preopens : List Text
  /-- The most pages of memory; none means all that can be addressed. -/
  memoryLimitPages : Nat
  arenaBase : UInt32
deriving DecidableEq, Repr

/-- No settings at all. -/
def Config.empty : Config := ⟨[], [], [], 0, 0⟩

namespace Loading

/-- The pages that can be addressed. -/
def allPages : Nat := 65536

/-- A number of pages in bytes, in the largest unit that leaves at least one. -/
def pagesText (pages : Nat) : Text :=
  let k := pages * 64
  if k < 1024 then Text.ofNat k ++ " Ki"
  else if k / 1024 < 1024 then Text.ofNat (k / 1024) ++ " Mi"
  else if k / 1024 / 1024 < 1024 then Text.ofNat (k / 1024 / 1024) ++ " Gi"
  else Text.ofNat (k / 1024 / 1024 / 1024) ++ " Ti"

/-- The module does not compile. -/
def compileFault (reason : Text) : Fault :=
  .wrap .instantiate .invalidData "compile module" (.plain reason)

/-- Why a memory is too large for the limit. -/
def limitText (pages limit : Nat) : Text :=
  "section memory: min " ++ Text.ofNat pages ++ " pages (" ++ pagesText pages
    ++ ") over limit of " ++ Text.ofNat limit ++ " pages (" ++ pagesText limit ++ ")"

/-- The first name that stands twice in a list, with its second place. -/
def firstRepeated (seen : List Text) (index : Nat) : List Text → Option (Nat × Text)
  | [] => none
  | name :: rest =>
    if seen.contains name then some (index, name)
    else firstRepeated (name :: seen) (index + 1) rest

/-- The imports the host does not offer. -/
def missingImports (m : Module) : List Text :=
  let offered := Wasi.functionNames.map fun name => Wasi.space ++ "#" ++ name
  (m.imports.map fun (space, name) => space ++ "#" ++ name).filter fun key => !offered.contains key

/-- The entries of the environment, sorted by key. -/
def environ (env : List (Text × Text)) : List Text :=
  (env.mergeSort fun a b => a.1.le b.1).map fun (key, value) => key ++ "=" ++ value

/-- Why arguments or environment cannot be passed to a guest. -/
def surroundingsProblem (config : Config) : Option Text :=
  if config.env.any fun (key, _) => key.isEmpty then some "environ invalid: empty key"
  else if config.env.any fun (key, _) => key.contains '=' then
    some "environ invalid: key contains '=' character"
  else if config.args.any (·.contains 0) then some "args invalid: contains NUL character"
  else if config.env.any fun (key, value) => key.contains 0 || value.contains 0 then
    some "environ invalid: contains NUL character"
  else none

/-- Sets up a built module. -/
def instantiateModule (m : Module) (config : Config) : Except Fault (Instance UInt32) :=
  let limit := if config.memoryLimitPages = 0 then allPages else config.memoryLimitPages
  if m.pageCount > limit then .error (compileFault (limitText m.pageCount limit))
  else match firstRepeated [] 0 ("memory" :: m.exportNames) with
    | some (index, name) =>
      .error (compileFault ("section export: export[" ++ Text.ofNat index ++ "] duplicates name " ++ Text.quoted name))
    | none =>
      let missing := missingImports m
      if !missing.isEmpty then .error (.missingImportKeys missing)
      else match surroundingsProblem config with
        | some reason => .error (.instantiation (some (.plain reason)))
        | none =>
          let wasi := Wasi.new config.args (environ config.env) config.preopens
          .ok (.new m.guest ⟨⟨m.memory, wasi⟩, UInt32.ofNat m.heapBase⟩ config.arenaBase)

/-- An instance of bytes from elsewhere: what is no module cannot be compiled, and a module without
functions has no parser. -/
def instantiateBytes (t : Text) : Except Fault (Instance UInt32) :=
  if t.take 4 != (0x00 :: "asm" : Text) then .error (compileFault "invalid magic number")
  else if (t.drop 4).take 4 != [1, 0, 0, 0] then .error (compileFault "invalid version header")
  else .error (.missingExport parseName)

/-- Sets up a module in either form. -/
def instantiate (image : Image) (config : Config) : Except Fault (Instance UInt32) :=
  match image with
  | .built m => instantiateModule m config
  | .bytes t => instantiateBytes t

end Loading

end Transpiler.Guest
