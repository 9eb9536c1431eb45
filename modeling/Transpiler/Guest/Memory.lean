import Transpiler.Fault.Reports
import Transpiler.Wire.Item

/-!
# Linear memory and the arena

The memory of a guest: so many bytes, all zero at first. Every access is checked against the size. What a stretch
holds is seen as a list of bytes (`bytes`); writing overrides the cells it covers and no other.

The arena is an allocator for guests that bring none: it hands out memory from a base upward and takes none back.
Addresses have 32 bits; where a block starts and ends is worked out in 64, as rounding up may lead past the last
address.
-/

namespace Transpiler.Guest

/-- What has been handed out: everything from the base up to the next free byte. -/
structure Arena where
  base : UInt32
  next : UInt32
deriving DecidableEq, Repr

namespace Arena

/-- Where an arena starts unless told otherwise: past the data of small modules. -/
def defaultBase : UInt32 := 65536

/-- Blocks start at multiples of this. -/
def alignment : UInt64 := 8

/-- An arena from a base, the default one if none is given. -/
def new (base : UInt32) : Arena :=
  let base := if base = 0 then defaultBase else base
  ⟨base, base⟩

/-- The next place a block can start: the next free byte, rounded up. -/
def start (a : Arena) : UInt64 := (a.next.toUInt64 + (alignment - 1)) &&& ~~~(alignment - 1)

/-- How many bytes a block takes, which is at least one. -/
def extent (size : UInt32) : UInt32 := if size = 0 then 1 else size

/-- Where a block would end. -/
def stop (a : Arena) (size : UInt32) : UInt64 := a.start + (extent size).toUInt64

/-- The bytes left in a memory. -/
def remaining (a : Arena) (memorySize : UInt64) : UInt32 :=
  if a.start < memorySize then (memorySize - a.start).toUInt32 else 0

/-- Hands out a block in a memory of so many bytes. -/
def alloc (a : Arena) (memorySize : Nat) (size : UInt32) : Except Fault (UInt32 × Arena) :=
  let limit := UInt64.ofNat memorySize
  if limit < a.stop size then .error (.outOfMemory (extent size).toNat (a.remaining limit).toNat)
  else .ok (a.start.toUInt32, { a with next := (a.stop size).toUInt32 })

/-- Takes a pointer back, which changes nothing. -/
def free (a : Arena) (ptr : UInt32) : Except Fault Unit :=
  if ptr < a.base || a.next ≤ ptr then
    .error (.invalidInput .memory "free of pointer outside the arena")
  else .ok ()

/-- The bytes handed out. -/
def used (a : Arena) : UInt32 := a.next - a.base

end Arena

/-- A memory: its size and its cells. -/
structure Memory where
  size : Nat
  cell : Nat → UInt8

namespace Memory

/-- The size as it is reported, in a word: the largest memory, of `2 ^ 32` bytes, counts as empty. -/
def reportedSize (m : Memory) : UInt32 := UInt32.ofNat m.size

/-- A memory of zeros. -/
def blank (size : Nat) : Memory := ⟨size, fun _ => 0⟩

/-- What a stretch holds. -/
def bytes (m : Memory) (offset length : Nat) : Text :=
  (List.range length).map fun i => m.cell (offset + i)

/-- Overrides the cells from `offset` on. -/
def put (m : Memory) (offset : Nat) (data : Text) : Memory :=
  let cells := data.toArray
  { m with
    cell := fun i =>
      if offset ≤ i then
        match cells[i - offset]? with
        | some b => b
        | none => m.cell i
      else m.cell i }

/-- Sets cells to zero. -/
def clear (m : Memory) (offset length : Nat) : Memory :=
  { m with cell := fun i => if offset ≤ i ∧ i < offset + length then 0 else m.cell i }

/-- Whether a stretch lies inside. -/
def fits (m : Memory) (offset length : Nat) : Bool := offset + length ≤ m.size

/-- Reads a stretch. -/
def read? (m : Memory) (offset length : Nat) : Option Text :=
  if m.fits offset length then some (m.bytes offset length) else none

/-- Writes a text. -/
def write? (m : Memory) (offset : Nat) (data : Text) : Option Memory :=
  if m.fits offset data.length then some (m.put offset data) else none

/-- Reads a word. -/
def word? (m : Memory) (offset : Nat) : Option UInt32 :=
  (m.read? offset 4).map fun t => UInt32.ofNat (Wire.Read.littleEndian t)

/-- Writes a word. -/
def setWord? (m : Memory) (offset : Nat) (n : UInt32) : Option Memory :=
  m.write? offset (Wire.Write.u32le n)

/-- Writes in order until one does not fit; those before it stay. -/
def writeAll (m : Memory) : List (Nat × Text) → Bool × Memory
  | [] => (true, m)
  | (offset, data) :: rest =>
    match m.write? offset data with
    | some m => m.writeAll rest
    | none => (false, m)

/-! ## Access with reports -/

/-- `read?` with a report. -/
def read (m : Memory) (offset length : UInt32) : Except Fault Text :=
  match m.read? offset.toNat length.toNat with
  | some t => .ok t
  | none => .error (.outOfBounds .memory offset.toNat length.toNat)

/-- `write?` with a report. -/
def write (m : Memory) (offset : UInt32) (data : Text) : Except Fault Memory :=
  match m.write? offset.toNat data with
  | some m => .ok m
  | none => .error (.outOfBounds .memory offset.toNat (UInt32.ofNat data.length).toNat)

/-- `word?` with a report. -/
def readWord (m : Memory) (offset : UInt32) : Except Fault UInt32 :=
  match m.word? offset.toNat with
  | some n => .ok n
  | none => .error (.outOfBounds .memory offset.toNat 4)

/-- `setWord?` with a report. -/
def writeWord (m : Memory) (offset n : UInt32) : Except Fault Memory :=
  match m.setWord? offset.toNat n with
  | some m => .ok m
  | none => .error (.outOfBounds .memory offset.toNat 4)

/-- `clear` with a report. -/
def zero (m : Memory) (offset length : UInt32) : Except Fault Memory :=
  if m.fits offset.toNat length.toNat then .ok (m.clear offset.toNat length.toNat)
  else .error (.outOfBounds .memory offset.toNat length.toNat)

end Memory

end Transpiler.Guest
