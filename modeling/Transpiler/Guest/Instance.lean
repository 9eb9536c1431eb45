import Transpiler.Guest.Machine

/-!
# Instances

A guest at work: its machine, the arena that stands in for a missing allocator, and a journal of the blocks obtained
and given back and of the calls received. A parse copies the source into the guest, lets it fill a descriptor, copies
the answer out and gives back all memory, whatever happened in between. That last duty is the scope's, which frees
what it was told of in reverse order, once.

The host takes the first word of a result without looking whether there is one. If a function returns without a word,
the host breaks down there: it leaves what it was doing, and only what a scope is to undo is still done. An action
that breaks down has `none` for its result.
-/

namespace Transpiler.Guest

/-- Something that happened between the host and a guest. -/
inductive Deed where
  /-- The host has obtained a block. -/
  | reserved (ptr : UInt32)
  /-- The host gives a block back. -/
  | freed (ptr : UInt32)
  /-- The guest has received a call. -/
  | called (c : Received)
deriving DecidableEq, Repr

namespace Deed

/-- Whether a block was obtained. -/
def isReserved : Deed → Bool
  | .reserved _ => true
  | _ => false

/-- Whether a block is given back. -/
def isFreed : Deed → Bool
  | .freed _ => true
  | _ => false

end Deed

/-- A guest at work. -/
structure Instance (γ : Type) where
  guest : Code γ
  machine : Machine γ
  /-- The code of the last exit since the last parse began. -/
  exit : Option UInt32
  arena : Arena
  /-- What happened so far, the latest last. -/
  journal : List Deed
  closed : Bool
  /-- Which of its loader's instances this is. -/
  serial : Nat

/-- Something done with an instance. What a failed action changed stays changed. -/
abbrev Act (γ α : Type) := EStateM Fault (Instance γ) α

/-- The outcome of one parse. -/
structure Serialized where
  bytes : Text
  exit : Option UInt32
deriving DecidableEq, Repr

/-- How often memory was obtained and given back. -/
structure Stats where
  allocations : Nat
  frees : Nat
  arenaUsed : Nat
deriving DecidableEq, Repr

/-- Nothing was obtained yet. -/
def Stats.zero : Stats := ⟨0, 0, 0⟩

/-- The functions for buffers that a guest may export; they count only if all are there. -/
structure BufferFunctions (γ : Type) where
  sizeof : Func γ
  init : Func γ
  value : Func γ
  length : Func γ
  free : Func γ

/-- The functions for buffers, if the guest exports all of them. -/
def Code.bufferFunctions? {γ : Type} (g : Code γ) : Option (BufferFunctions γ) := do
  let sizeof ← g.export? "pm_buffer_sizeof"
  let init ← g.export? "pm_buffer_init"
  let value ← g.export? "pm_buffer_value"
  let length ← g.export? "pm_buffer_length"
  let free ← g.export? "pm_buffer_free"
  pure ⟨sizeof, init, value, length, free⟩

/-- Whether the guest hands out memory itself. -/
def Code.allocates {γ : Type} (g : Code γ) : Bool :=
  (g.export? "malloc").isSome || (g.export? "calloc").isSome

/-- The name of the guest's parser. -/
def parseName : Text := "pm_serialize_parse"

/-- The bytes of a descriptor: place, length and capacity of the answer. -/
def descriptorSize : UInt32 := 12

namespace Instance

variable {γ : Type}

/-- An instance that has done nothing yet. -/
def new (guest : Code γ) (machine : Machine γ) (arenaBase : UInt32) : Instance γ :=
  ⟨guest, machine, none, .new arenaBase, [], false, 0⟩

/-- The counters. The arena counts only where the guest has no allocator. -/
def stats (i : Instance γ) : Stats :=
  ⟨i.journal.countP Deed.isReserved, i.journal.countP Deed.isFreed,
    if i.guest.allocates then 0 else i.arena.used.toNat⟩

/-- The instance after its guest has received a call, with the machine as the call left it. -/
def received (i : Instance γ) (c : Received) (machine : Machine γ) : Instance γ :=
  { i with machine := machine, exit := c.finish.exit?.or i.exit, journal := i.journal ++ [.called c] }

/-- The lines the guest wrote since they were last taken. -/
def logs (i : Instance γ) : List Log := i.machine.wasi.logs

/-- The instance with its lines taken. -/
def takeLogs (i : Instance γ) : Instance γ :=
  { i with machine := { i.machine with wasi := { i.machine.wasi with logs := [] } } }

/-- Ends the instance: it answers no call any more. -/
def close (i : Instance γ) : Instance γ := { i with closed := true }

end Instance

namespace Act

variable {γ : Type}

/-- Fails with a fault. -/
def refuse {α : Type} (fault : Fault) : Act γ α := throw fault

/-- Something that may fail without touching the instance. -/
def lift {α : Type} : Except Fault α → Act γ α
  | .ok a => pure a
  | .error fault => refuse fault

/-- Enters something in the journal. -/
def note (d : Deed) : Act γ Unit := modify fun i => { i with journal := i.journal ++ [d] }

/-- Changes the guest's memory, or fails and leaves it. -/
def changeMemory (f : Memory → Except Fault Memory) : Act γ Unit := fun i =>
  match f i.machine.memory with
  | .ok memory => .ok () { i with machine := { i.machine with memory := memory } }
  | .error fault => .error fault i

/-- Reads from the guest's memory. -/
def readMemory {α : Type} (f : Memory → Except Fault α) : Act γ α := fun i =>
  match f i.machine.memory with
  | .ok a => .ok a i
  | .error fault => .error fault i

/-- Calls an exported function by its name. A closed instance answers every call as if the guest had exited, and an
exit is remembered. -/
def callFunction (name : Text) (f : Func γ) (args : List UInt64) : Act γ (Except CallFault (List UInt64)) := fun i =>
  if i.closed then .ok (.error (.exited 0)) i
  else if args.length != f.arity then
    .ok (.error (.trapped ("expected " ++ Text.ofNat f.arity ++ " params, but passed " ++ Text.ofNat args.length))) i
  else
    let (finish, machine) := f.run args i.machine
    .ok finish.result (i.received ⟨name, args, finish⟩ machine)

/-- Calls an exported function on a stack of words. It takes its arguments from there and leaves its results in their
place; what it does not write over stays. -/
def callOnStack (name : Text) (f : Func γ) (stack : List UInt64) :
    Act γ (Except CallFault (List UInt64)) := do
  if stack.length < f.arity then
    pure (.error (.trapped ("need " ++ Text.ofNat f.arity ++ " params, but stack size is " ++ Text.ofNat stack.length)))
  else
    let outcome ← callFunction name f (stack.take f.arity)
    pure (outcome.map fun results => results ++ stack.drop results.length)

/-- Calls an exported function for its results; a failure is reported under its name. -/
def callResults (name : Text) (f : Func γ) (args : List UInt64) : Act γ (List UInt64) := do
  match ← callFunction name f args with
  | .ok results => pure results
  | .error fault => refuse (.trap name (some fault.fault))

/-- Calls an exported function for the first word of its results, if there is one. -/
def callWord (name : Text) (f : Func γ) (args : List UInt64) : Act γ (Option UInt32) := do
  let results ← callResults name f args
  pure (results.head?.map (·.toUInt32))

/-! ## Allocation -/

/-- Asks the guest for a block: its `malloc`, else its `calloc`. Gives the stack after the call. -/
def askForBlock (size : UInt32) : Act γ (Except CallFault (List UInt64)) := do
  let i ← get
  match i.guest.export? "malloc", i.guest.export? "calloc" with
  | some malloc, _ => callOnStack "malloc" malloc [size.toUInt64]
  | none, some calloc => callOnStack "calloc" calloc [1, size.toUInt64]
  | none, none => pure (.ok [])

/-- A block from the guest's allocator. Its place is the first word of the stack. -/
def allocFromGuest (size : UInt32) : Act γ UInt32 := do
  match ← askForBlock size with
  | .error fault => refuse (.allocationFailed size.toNat (some fault.fault))
  | .ok stack =>
    let ptr := (stack.headD 0).toUInt32
    if ptr = 0 then refuse (.allocationFailed size.toNat none) else pure ptr

/-- A block from the arena. -/
def allocFromArena (size : UInt32) : Act γ UInt32 := fun i =>
  match i.arena.alloc i.machine.memory.reportedSize.toNat size with
  | .ok (ptr, arena) => .ok ptr { i with arena := arena }
  | .error fault => .error fault i

/-- A block from the guest's allocator, or from the arena where there is none. -/
def obtainBlock (size : UInt32) : Act γ UInt32 := do
  let i ← get
  if i.guest.allocates then allocFromGuest size else allocFromArena size

/-- Obtains a block, which is entered in the journal. -/
def allocate (size : UInt32) : Act γ UInt32 := do
  let i ← get
  if i.closed then refuse (.notInitialized .memory "instance")
  else
    let ptr ← obtainBlock size
    note (.reserved ptr)
    pure ptr

/-- Gives a block back to the guest's allocator, if that can take it. -/
def freeToGuest (ptr : UInt32) : Act γ Unit := do
  let i ← get
  match i.guest.export? "free" with
  | none => pure ()
  | some free =>
    if ptr = 0 then pure ()
    else match ← callOnStack "free" free [ptr.toUInt64] with
      | .ok _ => pure ()
      | .error fault => refuse (.wrap .memory .allocation "free" fault.fault)

/-- Gives a block back. That is entered in the journal, whether it succeeds or not. -/
def free (ptr : UInt32) : Act γ Unit := do
  note (.freed ptr)
  let i ← get
  if i.closed then pure ()
  else if i.guest.allocates then freeToGuest ptr
  else lift (i.arena.free ptr)

/-- An action whose failure does not matter. -/
def ignoring (act : Act γ Unit) : Act γ Unit := fun i =>
  match act i with
  | .ok _ i => .ok () i
  | .error _ i => .ok () i

/-- An action that is followed by another one when it fails, and then fails all the same. -/
def undoing {α : Type} (act : Act γ α) (undo : Act γ Unit) : Act γ α := fun i =>
  match act i with
  | .ok a i => .ok a i
  | .error fault i =>
    match ignoring undo i with
    | .ok _ i => .error fault i
    | .error _ i => .error fault i

/-- Copies a text into fresh memory with a zero byte after it; gives its place and length. -/
def writeString (t : Text) : Act γ (UInt32 × UInt32) := do
  let ptr ← allocate (UInt32.ofNat (t.length + 1))
  undoing (changeMemory fun m => m.write ptr (t ++ [0])) (free ptr)
  pure (ptr, UInt32.ofNat t.length)

/-! ## Parsing -/

/-- Lets the guest make a descriptor ready, and gives its answer. -/
def initBuffer (init : Func γ) (desc : UInt32) : Act γ (Option UInt32) := do
  let ready ← callWord "pm_buffer_init" init [desc.toUInt64]
  if ready = some 0 then
    refuse (.trap "pm_buffer_init" (some (.plain "pm_buffer_init returned false")))
  else pure ready

/-- A block for the descriptor of an answer, made ready by the guest if it has functions for that. A breakdown leaves
the block where it is. -/
def newDescriptor : Act γ (Option UInt32) := do
  let i ← get
  match i.guest.bufferFunctions? with
  | none =>
    let desc ← allocate descriptorSize
    undoing (changeMemory fun m => m.zero desc descriptorSize) (free desc)
    pure (some desc)
  | some buffer =>
    match ← callWord "pm_buffer_sizeof" buffer.sizeof [] with
    | none => pure none
    | some size =>
      let desc ← allocate size
      let ready ← undoing (initBuffer buffer.init desc) (free desc)
      pure (ready.map fun _ => desc)

/-- The faults of an action, if there are any. -/
def faultsOf (act : Act γ Unit) : Act γ (List Fault) := fun i =>
  match act i with
  | .ok _ i => .ok [] i
  | .error fault i => .ok [fault] i

/-- Fails with all faults at once, if there are any. -/
def failJoined (faults : List Fault) : Act γ Unit :=
  if faults.isEmpty then pure () else refuse (.joined faults)

/-- Lets the guest take out of a descriptor what it may have put into it, and gives the faults of that. -/
def emptyDescriptor (desc : UInt32) : Act γ (List Fault) := do
  let i ← get
  match i.guest.bufferFunctions? with
  | none => pure []
  | some buffer =>
    if i.closed then pure []
    else faultsOf do
      let _ ← callResults "pm_buffer_free" buffer.free [desc.toUInt64]

/-- Gives a descriptor back. The guest may have put something into it, so its own function goes first. -/
def releaseDescriptor (desc : UInt32) : Act γ Unit := do
  let first ← emptyDescriptor desc
  let second ← faultsOf (free desc)
  failJoined (first ++ second)

/-- Runs the guest's parser on a source in memory. That the guest exits is no failure: it may have filled
the descriptor before. -/
def invoke (desc source length options : UInt32) : Act γ Unit := do
  modify fun i => { i with
    exit := none
    machine := { i.machine with wasi := i.machine.wasi.reset } }
  let i ← get
  match i.guest.export? parseName with
  | none => refuse (.missingExport parseName)
  | some parse =>
    match ← callFunction parseName parse
        [desc.toUInt64, source.toUInt64, length.toUInt64, options.toUInt64] with
    | .ok _ => pure ()
    | .error (.exited _) => pure ()
    | .error (.trapped message) => refuse (.trap parseName (some (.plain message)))

/-- The place and the length of the answer in a descriptor. Both functions are called before either word is looked
at. -/
def answerPlace (desc : UInt32) : Act γ (Option (UInt32 × UInt32)) := do
  let i ← get
  match i.guest.bufferFunctions? with
  | some buffer =>
    let value ← callWord "pm_buffer_value" buffer.value [desc.toUInt64]
    let length ← callWord "pm_buffer_length" buffer.length [desc.toUInt64]
    pure (do return (← value, ← length))
  | none =>
    let value ← readMemory fun m => m.readWord desc
    let length ← readMemory fun m => m.readWord (desc + 4)
    pure (some (value, length))

/-- Copies the answer out of the guest. -/
def readBuffer (desc : UInt32) : Act γ (Option Text) := do
  match ← answerPlace desc with
  | none => pure none
  | some (value, length) =>
    if length = 0 then refuse (.invalidData .parse [] "parse export produced an empty buffer")
    else readMemory fun m => (m.read value length).map some

/-- Parses a source in memory and gives the descriptor of the answer, which the caller then owns. -/
def invokeParse (source length options : UInt32) : Act γ (Option UInt32) := do
  match ← newDescriptor with
  | none => pure none
  | some desc =>
    undoing (invoke desc source length options) (releaseDescriptor desc)
    pure (some desc)

/-- Calls any exported function. -/
def call (name : Text) (args : List UInt64) : Act γ (List UInt64) := do
  let i ← get
  if i.closed then refuse (.notInitialized .parse "instance")
  match i.guest.export? name with
  | none => refuse (.missingExport name)
  | some f => callResults name f args

end Act

/-! ## Scopes -/

/-- What a scope has to undo. -/
inductive Cleanup (γ : Type) where
  | free (ptr : UInt32)
  | run (act : Act γ Unit)

/-- What an operation has to undo, the latest first, and whether that was done. -/
structure Cleanups (γ : Type) where
  pending : List (Cleanup γ)
  released : Bool

namespace Cleanups

variable {γ : Type}

/-- A new scope. -/
def empty : Cleanups γ := ⟨[], false⟩

/-- The scope with one more thing to undo. -/
def add (s : Cleanups γ) (c : Cleanup γ) : Cleanups γ := { s with pending := c :: s.pending }

/-- How much is left to undo. -/
def size (s : Cleanups γ) : Nat := s.pending.length

/-- Undoes one thing. -/
def undo : Cleanup γ → Act γ Unit
  | .free ptr => Act.free ptr
  | .run act => act

/-- Undoes everything in order, whatever fails on the way, and collects the faults. -/
def undoAll : List (Cleanup γ) → Act γ (List Fault)
  | [] => pure []
  | c :: rest => do
    let faults ← Act.faultsOf (undo c)
    let more ← undoAll rest
    pure (faults ++ more)

/-- Undoes everything, unless that was done before. -/
def release (s : Cleanups γ) : Instance γ → Except Fault Unit × Cleanups γ × Instance γ := fun i =>
  if s.released then (.ok (), s, i)
  else
    let done : Cleanups γ := ⟨[], true⟩
    match undoAll s.pending i with
    | .ok [] i => (.ok (), done, i)
    | .ok faults i => (.error (.joined faults), done, i)
    | .error fault i => (.error fault, done, i)

/-- Obtains a block that the scope will free. -/
def allocate (s : Cleanups γ) (size : UInt32) : Instance γ → Except Fault UInt32 × Cleanups γ × Instance γ := fun i =>
  match Act.allocate size i with
  | .ok ptr i => (.ok ptr, s.add (.free ptr), i)
  | .error fault i => (.error fault, s, i)

/-- Copies a text into memory that the scope will free. -/
def writeString (s : Cleanups γ) (t : Text) :
    Instance γ → Except Fault (UInt32 × UInt32) × Cleanups γ × Instance γ := fun i =>
  match Act.writeString t i with
  | .ok place i => (.ok place, s.add (.free place.1), i)
  | .error fault i => (.error fault, s, i)

end Cleanups

/-- The answer to a parse. After the guest ran there is a status even when reading its answer failed. Without a status
and without a fault nothing has come back: the host broke down. -/
structure Answer where
  status : Option Serialized
  fault : Option Fault

namespace Answer

/-- The host broke down. -/
def breakdown : Answer := ⟨none, none⟩

/-- Whether the host broke down. -/
def broken (a : Answer) : Bool := a.status.isNone && a.fault.isNone

end Answer

namespace Instance

variable {γ : Type}

/-- Runs the guest's parser and copies its answer out. -/
def answer (desc source length : UInt32) (i : Instance γ) : Answer × Instance γ :=
  match Act.invoke desc source length 0 i with
  | .error fault i => (⟨none, some fault⟩, i)
  | .ok _ i =>
    match Act.readBuffer desc i with
    | .ok (some bytes) after => (⟨some ⟨bytes, i.exit⟩, none⟩, after)
    | .ok none after => (.breakdown, after)
    | .error fault after => (⟨some ⟨[], i.exit⟩, some fault⟩, after)

/-- Parses a source and copies the serialized tree out of the guest. -/
def serialize (source : Text) (i : Instance γ) : Answer × Instance γ :=
  if i.closed then (⟨none, some (.notInitialized .parse "instance")⟩, i)
  else
    match Cleanups.empty.writeString source i with
    | (.error fault, s, i) => (⟨none, some fault⟩, (s.release i).2.2)
    | (.ok (ptr, length), s, i) =>
      match Act.newDescriptor i with
      | .error fault i => (⟨none, some fault⟩, (s.release i).2.2)
      | .ok none i => (.breakdown, (s.release i).2.2)
      | .ok (some desc) i =>
        let s := s.add (.run (Act.releaseDescriptor desc))
        let (result, i) := answer desc ptr length i
        (result, (s.release i).2.2)

end Instance

end Transpiler.Guest
