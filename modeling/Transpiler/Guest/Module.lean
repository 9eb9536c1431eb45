import Transpiler.Guest.Machine

/-!
# A stand-in for the parsing module

A small WebAssembly module that answers a parse with a fixed serialized tree or with the source itself,
and on the way may write to its streams, trap, or exit. A description says which; it fixes the layout of
the module's memory (`textPlaces`, `treePlace`, `heapBase`), the bytes of the module (`bytes`) and how it
behaves (`guest`).
-/

namespace Transpiler.Guest

/-- What a stand-in module does. -/
structure Module where
  /-- The code to exit with after a parse. -/
  exit : Option UInt32
  /-- A function, as `namespace#name`, that the module imports on top of those it needs. -/
  extraImport : Text
  stdout : Text
  stderr : Text
  /-- The serialized tree to answer with. -/
  tree : Text
  /-- The pages of memory wanted; none means two. -/
  pages : Nat
  /-- Answer with the source instead of the tree. -/
  echo : Bool
  noAllocator : Bool
  /-- Offer functions for the buffers that hold answers. -/
  bufferFunctions : Bool
  trap : Bool
  /-- Functions of the system interface that callers can reach through the module. -/
  forward : List Text
deriving DecidableEq, Repr

namespace Module

/-! ## Layout -/

/-- The first multiple of `unit` that is not below `n`. -/
def align (n unit : Nat) : Nat := (n + unit - 1) / unit * unit

/-- The bytes of a page. -/
def pageSize : Nat := 65536

/-- A text for a stream and its place in memory. -/
structure TextPlace where
  fd : Nat
  /-- Where the pointer and length of the text stand. -/
  vector : Nat
  place : Nat
  text : Text

/-- Where the number of written bytes goes. -/
def writtenPlace : Nat := 40

/-- The texts for the streams, one after the other; their vectors stand in front. -/
def placeTexts (vector place : Nat) : List (Nat × Text) → List TextPlace
  | [] => []
  | (fd, text) :: rest =>
    if text.isEmpty then placeTexts vector place rest
    else ⟨fd, vector, place, text⟩ :: placeTexts (vector + 8) (place + text.length) rest

/-- The texts for the streams and their places. -/
def textPlaces (m : Module) : List TextPlace := placeTexts 16 64 [(1, m.stdout), (2, m.stderr)]

/-- The place of the tree, behind the texts. -/
def treePlace (m : Module) : Nat := align (64 + m.stdout.length + m.stderr.length) 8

/-- Where the heap starts. -/
def heapBase (m : Module) : Nat := max (align (m.treePlace + m.tree.length) 16) 4096

/-- The pages of memory: those wanted, and enough for the data. -/
def pageCount (m : Module) : Nat :=
  max (if m.pages = 0 then 2 else m.pages) ((m.heapBase + pageSize - 1) / pageSize)

/-- What is in memory from the start, by its place. -/
def segments (m : Module) : List (Nat × Text) :=
  m.textPlaces.map (fun p => (p.place, p.text))
    ++ m.textPlaces.map (fun p => (p.vector, Host.word p.place ++ Host.word p.text.length))
    ++ (if m.tree.isEmpty then [] else [(m.treePlace, m.tree)])

/-- The two parts of the extra import. -/
def extraParts (m : Module) : Text × Text :=
  match m.extraImport.cut '#' with
  | (space, some name) => (space, name)
  | (name, none) => ("env", name)

/-- The imported functions. -/
def imports (m : Module) : List (Text × Text) :=
  let needed : List (Text × Text) := [(Wasi.space, "fd_write"), (Wasi.space, "proc_exit")]
  let extra := if m.extraImport.isEmpty then [] else [m.extraParts]
  needed ++ extra ++ m.forward.map fun name => (Wasi.space, name)

/-! ## Behaviour -/

/-- The exported functions in the order in which they are defined. -/
def exportNames (m : Module) : List Text :=
  let start : List Text := ["_initialize"]
  let allocator : List Text := if m.noAllocator then [] else ["malloc", "free"]
  let buffers : List Text := if m.bufferFunctions then
    ["pm_buffer_sizeof", "pm_buffer_init", "pm_buffer_value", "pm_buffer_length", "pm_buffer_free"] else []
  let parse : List Text := ["pm_serialize_parse"]
  start ++ allocator ++ buffers ++ parse ++ m.forward.map fun name => ("call_" : Text) ++ name

/-- The number of a function: imports come first. -/
def functionNumber (m : Module) (name : Text) : Nat := m.imports.length + m.exportNames.idxOf name

/-- The `i`-th argument as a word. -/
def arg (args : List UInt64) (i : Nat) : UInt32 := ((args[i]?).getD 0).toUInt32

/-- The results of a function that returns a word. -/
def result (n : UInt32) : List UInt64 := [n.toUInt64]

/-- Stores words at an address, one after the other, until one lies outside. -/
def storeWords (memory : Memory) (place : Nat) : List UInt32 → Bool × Memory
  | [] => (true, memory)
  | n :: rest =>
    match memory.setWord? place n with
    | some memory => storeWords memory (place + 4) rest
    | none => (false, memory)

/-- The end of a call that reached outside memory. -/
def outside (m : Module) (name : Text) (arity : Nat) : Finish :=
  .trapped (trapMessage "out of bounds memory access" (m.functionNumber name) arity)

/-- Makes the heap empty. -/
def resetHeap (m : Module) : Func UInt32 where
  arity := 0
  run _ s := (.returned [], { s with globals := UInt32.ofNat m.heapBase })

/-- Hands out the next bytes of the heap, rounded up to a multiple of eight, without any check. -/
def malloc : Func UInt32 where
  arity := 1
  run args s :=
    let size := (arg args 0 + 7) / 8 * 8
    (.returned (result s.globals), { s with globals := s.globals + size })

/-- Takes a word and does nothing. -/
def ignore : Func UInt32 where
  arity := 1
  run _ s := (.returned [], s)

/-- The size of a descriptor. -/
def bufferSizeof : Func UInt32 where
  arity := 0
  run _ s := (.returned (result 12), s)

/-- Makes a descriptor empty. -/
def bufferInit (m : Module) : Func UInt32 where
  arity := 1
  run args s :=
    match storeWords s.memory (arg args 0).toNat [0, 0, 0] with
    | (true, memory) => (.returned (result 1), { s with memory := memory })
    | (false, memory) => (m.outside "pm_buffer_init" 1, { s with memory := memory })

/-- Reads a word of a descriptor. -/
def bufferWord (m : Module) (name : Text) (offset : Nat) : Func UInt32 where
  arity := 1
  run args s :=
    match s.memory.word? ((arg args 0).toNat + offset) with
    | some n => (.returned (result n), s)
    | none => (m.outside name 1, s)

/-- Writes the texts to their streams. -/
def writeTexts (h : Host) : List TextPlace → Host
  | [] => h
  | p :: rest =>
    writeTexts (h.fdWrite (UInt32.ofNat p.fd) (UInt32.ofNat p.vector) 1 (UInt32.ofNat writtenPlace)).2 rest

/-- Answers a parse: the place and the length of the answer, stored in the buffer. -/
def parse (m : Module) : Func UInt32 where
  arity := 4
  run args s :=
    let name : Text := "pm_serialize_parse"
    if m.trap then (.trapped (trapMessage "unreachable" (m.functionNumber name) 4), s)
    else
      let host := writeTexts s.toHost m.textPlaces
      let (place, length) := if m.echo then (arg args 1, arg args 2)
        else (UInt32.ofNat m.treePlace, UInt32.ofNat m.tree.length)
      match storeWords host.memory (arg args 0).toNat [place, length, length] with
      | (false, memory) => (m.outside name 4, ⟨{ host with memory := memory }, s.globals⟩)
      | (true, memory) =>
        let s : Machine UInt32 := ⟨{ host with memory := memory }, s.globals⟩
        match m.exit with
        | some code => (.exited code, s)
        | none => (.returned [], s)

/-- Passes a call on to the system interface. -/
def forwarded (name : Text) : Func UInt32 where
  arity := ((Wasi.params? name).getD []).length
  run args s :=
    let (code, host) := Wasi.call name args s.toHost
    (.returned (result code), ⟨host, s.globals⟩)

/-- The exports of a module that it does not pass on. -/
def ownExports (m : Module) : List (Text × Func UInt32) :=
  let start : List (Text × Func UInt32) := [("_initialize", m.resetHeap)]
  let allocator : List (Text × Func UInt32) :=
    if m.noAllocator then [] else [("malloc", malloc), ("free", ignore)]
  let buffers : List (Text × Func UInt32) := if m.bufferFunctions then
    [("pm_buffer_sizeof", bufferSizeof), ("pm_buffer_init", m.bufferInit),
      ("pm_buffer_value", m.bufferWord "pm_buffer_value" 0),
      ("pm_buffer_length", m.bufferWord "pm_buffer_length" 4), ("pm_buffer_free", ignore)]
    else []
  let parse : List (Text × Func UInt32) := [("pm_serialize_parse", m.parse)]
  start ++ allocator ++ buffers ++ parse

/-- How the module behaves. -/
def guest (m : Module) : Code UInt32 where
  exports := m.ownExports ++ m.forward.map fun name => (("call_" : Text) ++ name, forwarded name)

/-- The memory at the start. -/
def memory (m : Module) : Memory :=
  ((Memory.blank (m.pageCount * pageSize)).writeAll m.segments).2

/-! ## Bytes -/

/-- The types of values. -/
def i32 : UInt8 := 0x7F

/-- The byte for the type of a parameter. -/
def paramByte : Wasi.ParamType → UInt8
  | .i32 => i32
  | .i64 => 0x7E

/-- An unsigned number. -/
def number (n : Nat) : Text := Wire.Write.numeral n

/-- A constant instruction. The word is read as a signed number. -/
def const (n : UInt32) : Text := 0x41 :: Wire.Write.signedNumeral n.toInt32.toInt

/-- Takes a parameter. -/
def localGet (i : Nat) : Text := 0x20 :: number i

/-- Stores a word. -/
def store (offset : Nat) : Text := [0x36] ++ number 2 ++ number offset

/-- Loads a word. -/
def load (offset : Nat) : Text := [0x28] ++ number 2 ++ number offset

/-- Calls a function by its number. -/
def callFunction (i : Nat) : Text := 0x10 :: number i

/-- The type of a function. -/
def typeText (params results : List UInt8) : Text :=
  [0x60] ++ number params.length ++ params ++ number results.length ++ results

/-- The types of the functions that are always the same: their parameters and results. -/
def fixedTypes : List (List UInt8 × List UInt8) :=
  [([i32], [i32]), ([i32], []), ([i32, i32, i32, i32], [i32]), ([i32, i32, i32, i32], []), ([], []), ([], [i32])]

/-- The parameters of a function that is passed on. -/
def forwardParams (name : Text) : List UInt8 := ((Wasi.params? name).getD []).map paramByte

/-- All types of functions. -/
def types (m : Module) : List (List UInt8 × List UInt8) :=
  fixedTypes ++ m.forward.map fun name => (forwardParams name, [i32])

/-- The number of the type of each imported function. -/
def importTypes (m : Module) : List Nat :=
  [2, 1] ++ (if m.extraImport.isEmpty then [] else [4])
    ++ (List.range m.forward.length).map fun i => fixedTypes.length + i

/-- The number of the type and the instructions of each function. -/
def functions (m : Module) : List (Nat × Text) :=
  let heapGet : Text := 0x23 :: number 0
  let heapSet : Text := 0x24 :: number 0
  let storeArg (value : Text) (offset : Nat) : Text := localGet 0 ++ value ++ store offset
  let answer : List Text := if m.echo then [localGet 1, localGet 2, localGet 2]
    else [const (UInt32.ofNat m.treePlace), const (UInt32.ofNat m.tree.length), const (UInt32.ofNat m.tree.length)]
  let firstForward := 2 + (if m.extraImport.isEmpty then 0 else 1)
  [(4, const (UInt32.ofNat m.heapBase) ++ heapSet)]
    ++ (if m.noAllocator then [] else
      [(0, heapGet ++ heapGet ++ localGet 0 ++ const 7 ++ [0x6A] ++ const (-8) ++ [0x71, 0x6A] ++ heapSet), (1, [])])
    ++ (if m.bufferFunctions then
      [(5, const 12), (0, storeArg (const 0) 0 ++ storeArg (const 0) 4 ++ storeArg (const 0) 8
          ++ const 1), (0, localGet 0 ++ load 0), (0, localGet 0 ++ load 4), (1, [])]
      else [])
    ++ [(3, (if m.trap then [0x00] else [])
      ++ m.textPlaces.flatMap (fun p => const (UInt32.ofNat p.fd) ++ const (UInt32.ofNat p.vector)
        ++ const 1 ++ const (UInt32.ofNat writtenPlace) ++ callFunction 0 ++ [0x1A])
      ++ (answer.zip [0, 4, 8]).flatMap (fun (value, offset) => storeArg value offset)
      ++ (match m.exit with
        | some code => const code ++ callFunction 1
        | none => []))]
    ++ m.forward.mapIdx fun i name =>
      (fixedTypes.length + i, (List.range (forwardParams name).length).flatMap localGet
        ++ callFunction (firstForward + i))

/-- A section with its size. -/
def wasmSection (id : UInt8) (content : Text) : Text := [id] ++ number content.length ++ content

/-- A section that is a list. -/
def listSection (id : UInt8) (entries : List Text) : Text :=
  wasmSection id (number entries.length ++ entries.flatMap fun e => e)

/-- The module as a file. -/
def bytes (m : Module) : Text :=
  let imports := (m.imports.zip m.importTypes).map fun ((space, name), type) =>
    Wire.Write.name space ++ Wire.Write.name name ++ [0x00] ++ number type
  let exports := (Wire.Write.name "memory" ++ [0x02] ++ number 0) :: m.exportNames.mapIdx fun i name =>
      Wire.Write.name name ++ [0x00] ++ number (m.imports.length + i)
  let bodies := m.functions.map fun (_, code) =>
    let body := number 0 ++ code ++ [0x0B]
    number body.length ++ body
  let segments := m.segments.map fun (place, data) =>
    number 0 ++ const (UInt32.ofNat place) ++ [0x0B] ++ Wire.Write.name data
  (0x00 :: "asm") ++ Host.word 1
    ++ listSection 1 (m.types.map fun (params, results) => typeText params results) ++ listSection 2 imports
    ++ listSection 3 (m.functions.map fun (type, _) => number type)
    ++ listSection 5 [[0x00] ++ number m.pageCount]
    ++ listSection 6 [[i32, 0x01] ++ const (UInt32.ofNat m.heapBase) ++ [0x0B]]
    ++ listSection 7 exports ++ listSection 10 bodies
    ++ (if segments.isEmpty then [] else listSection 11 segments)

end Module

/-! ## Images -/

/-- What a file, a download or the program itself holds as a module: one built from a description, or bytes from
elsewhere. -/
inductive Image where
  | built (m : Module)
  | bytes (t : Text)

/-- The bytes of an image. -/
def Image.text : Image → Text
  | .built m => m.bytes
  | .bytes t => t

end Transpiler.Guest
