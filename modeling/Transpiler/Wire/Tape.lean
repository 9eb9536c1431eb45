import Transpiler.Text.Rune
import Transpiler.Number.Binary64

/-!
# Reading a tape of bytes

A tape is what is left of a byte string together with the number of bytes before it. Reading takes
numbers, texts and floats off its front; a read that fails leaves the tape where it stopped. Numbers
are written in groups of seven bits, lowest first, with the top bit of a byte set on all but the last
(`numeral`), or as fixed little-endian words.
-/

namespace Transpiler.Wire

/-- The bytes still to be read, and how many came before them. -/
structure Tape where
  pos : Nat
  rest : Text
deriving DecidableEq, Repr

/-- Before the first byte. -/
def Tape.ofText (data : Text) : Tape := ⟨0, data⟩

/-- Why a read failed, with the position it stopped at. -/
inductive ReadFault where
  | endOfData (pos : Nat)
  | overflow (pos : Nat)
  | notUtf8 (pos : Nat)
  | seek (pos : Nat) (target : Int) (size : Nat)
deriving DecidableEq, Repr

namespace ReadFault

/-- Where reading failed. -/
def pos : ReadFault → Nat
  | .endOfData p => p
  | .overflow p => p
  | .notUtf8 p => p
  | .seek p _ _ => p

/-- The wording of the cause alone. -/
def cause : ReadFault → Text
  | .endOfData _ => "unexpected end of data"
  | .overflow _ => "leb128: overflow"
  | .notUtf8 _ => "invalid UTF-8 in string"
  | .seek _ target size =>
    "seek to " ++ Text.ofInt target ++ " outside " ++ Text.ofNat size ++ " bytes"

/-- The fault in words. -/
def message (f : ReadFault) : Text := "at position " ++ Text.ofNat f.pos ++ ": " ++ f.cause

/-- Whether the bytes ran out. -/
def isEndOfData : ReadFault → Bool
  | .endOfData _ => true
  | _ => false

/-- Whether a number had too many groups. -/
def isOverflow : ReadFault → Bool
  | .overflow _ => true
  | _ => false

end ReadFault

/-- Readers of `α`, with failures of type `ε`. -/
abbrev Read (ε α : Type) := EStateM ε Tape α

/-- Readers that fail only as the tape itself does. -/
abbrev RawRead (α : Type) := Read ReadFault α

namespace Read

/-- The place on the tape. -/
def position {ε : Type} : Read ε Nat := fun t => .ok t.pos t

/-- How many bytes are left. -/
def left {ε : Type} : Read ε Nat := fun t => .ok t.rest.length t

/-- Fails with a cause that knows where the tape stands. -/
def fail {ε α : Type} (f : Nat → ε) : Read ε α := fun t => .error (f t.pos) t

/-- Changes how reading fails. -/
def mapFault {ε δ α : Type} (f : ε → δ) (r : Read ε α) : Read δ α := fun t =>
  match r t with
  | .ok a t' => .ok a t'
  | .error e t' => .error (f e) t'

/-- The first `n` bytes of a text and the rest, if there are that many. -/
def split? : Nat → Text → Option (Text × Text)
  | 0, t => some ([], t)
  | _ + 1, [] => none
  | n + 1, b :: t => (split? n t).map fun (head, tail) => (b :: head, tail)

/-- Reads a byte. -/
def byte : RawRead UInt8 := fun t =>
  match t.rest with
  | [] => .error (.endOfData t.pos) t
  | b :: rest => .ok b ⟨t.pos + 1, rest⟩

/-- Exactly `n` bytes, or none at all. -/
def bytes (n : Nat) : RawRead Text := fun t =>
  match split? n t.rest with
  | none => .error (.endOfData t.pos) t
  | some (head, tail) => .ok head ⟨t.pos + n, tail⟩

/-- Exactly `n` bytes; fewer than none cannot be had. -/
def count (n : Int) : RawRead Text :=
  if n < 0 then fail .endOfData else bytes n.toNat

/-- Moves to a position of `data`, the whole of what is on the tape. -/
def seek (data : Text) (target : Int) : RawRead Unit := fun t =>
  if 0 ≤ target ∧ target ≤ data.length then .ok () ⟨target.toNat, data.drop target.toNat⟩
  else .error (.seek t.pos target data.length) t

/-- A numeral of at most `groups` groups of seven bits, lowest first. -/
def numeral : (groups : Nat) → RawRead Nat
  | 0 => fail .overflow
  | groups + 1 => do
    let b ← byte
    if b < 128 then pure b.toNat
    else do
      let high ← numeral groups
      pure (b.toNat - 128 + 128 * high)

/-- A numeral of at most `groups` groups whose last group has a sign in its top bit. -/
def signedNumeral : (groups : Nat) → RawRead Int
  | 0 => fail .overflow
  | groups + 1 => do
    let b ← byte
    if b < 64 then pure b.toNat
    else if b < 128 then pure (b.toNat - 128 : Int)
    else do
      let high ← signedNumeral groups
      pure (b.toNat - 128 + 128 * high)

/-- An unsigned number in five groups at most; what exceeds 32 bits is dropped. -/
def u32 : RawRead UInt32 := do pure (UInt32.ofNat (← numeral 5))

/-- An unsigned number in ten groups at most; what exceeds 64 bits is dropped. -/
def u64 : RawRead UInt64 := do pure (UInt64.ofNat (← numeral 10))

/-- A signed number in ten groups at most; what exceeds 64 bits is dropped. -/
def s64 : RawRead Int64 := do pure (Int64.ofInt (← signedNumeral 10))

/-- The number, lowest byte first. -/
def littleEndian : Text → Nat
  | [] => 0
  | b :: rest => b.toNat + 256 * littleEndian rest

/-- Reads four bytes. -/
def u32le : RawRead UInt32 := do pure (UInt32.ofNat (littleEndian (← bytes 4)))

/-- Reads a double. -/
def f64le : RawRead Binary64 := do pure ⟨UInt64.ofNat (littleEndian (← bytes 8))⟩

/-- A text after its length; it has to be well-formed UTF-8. -/
def name : RawRead Text := do
  let length ← u32
  let t ← bytes length.toNat
  if t.isUtf8 then pure t else fail .notUtf8

end Read

end Transpiler.Wire
