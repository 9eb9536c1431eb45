import Transpiler.Wire.Tape

/-!
# Items on the tape

The typed values that can be put on a tape, how each is written, and how a value of a given type is
read back. A word that is not known yet can be reserved and patched later.
-/

namespace Transpiler.Wire

/-! ## Writing -/

namespace Write

/-- A numeral in groups of seven bits, lowest first. -/
def numeral (n : Nat) : Text :=
  if n < 128 then [n.toUInt8] else (n % 128 + 128).toUInt8 :: numeral (n / 128)
termination_by n
decreasing_by omega

/-- A signed numeral in groups of seven bits, the sign in the top bit of the last group. -/
def signedNumeral (i : Int) : Text :=
  if -64 ≤ i ∧ i < 64 then [(i % 128).toNat.toUInt8]
  else ((i % 128).toNat + 128).toUInt8 :: signedNumeral (i / 128)
termination_by i.natAbs
decreasing_by omega

/-- The lowest `width` bytes of a number, lowest first. -/
def littleEndian : (width n : Nat) → Text
  | 0, _ => []
  | w + 1, n => (n % 256).toUInt8 :: littleEndian w (n / 256)

/-- A numeral of 32 bits. -/
def u32 (n : UInt32) : Text := numeral n.toNat

/-- A text after its length. -/
def name (t : Text) : Text := u32 (UInt32.ofNat t.length) ++ t

/-- Four bytes, lowest first. -/
def u32le (n : UInt32) : Text := littleEndian 4 n.toNat

/-- A double, lowest byte first. -/
def f64le (x : Binary64) : Text := littleEndian 8 x.bits.toNat

/-- Overwrites four bytes. -/
def patch (bytes : Text) (place : Nat) (n : UInt32) : Text :=
  bytes.take place ++ u32le n ++ bytes.drop (place + 4)

end Write

/-! ## Typed values -/

/-- The types of items. -/
inductive ItemType where
  | byte
  | bytes (count : Int)
  | u32
  | u64
  | s64
  | name
  | u32le
  | f64le
deriving DecidableEq, Repr

/-- What a draft is made of. -/
inductive Item where
  | byte (b : UInt8)
  | bytes (t : Text)
  | u32 (n : UInt32)
  | u64 (n : UInt64)
  | s64 (n : Int64)
  | name (t : Text)
  | u32le (n : UInt32)
  | f64le (x : Binary64)
deriving DecidableEq, Repr

/-- The item's type. -/
def Item.type : Item → ItemType
  | .byte _ => .byte
  | .bytes t => .bytes t.length
  | .u32 _ => .u32
  | .u64 _ => .u64
  | .s64 _ => .s64
  | .name _ => .name
  | .u32le _ => .u32le
  | .f64le _ => .f64le

/-- The item's bytes. -/
def Item.write : Item → Text
  | .byte b => [b]
  | .bytes t => t
  | .u32 n => Write.u32 n
  | .u64 n => Write.numeral n.toNat
  | .s64 n => Write.signedNumeral n.toInt
  | .name t => Write.name t
  | .u32le n => Write.u32le n
  | .f64le x => Write.f64le x

/-- Reads an item. -/
def ItemType.read : ItemType → RawRead Item
  | .byte => do pure (.byte (← Read.byte))
  | .bytes n => do pure (.bytes (← Read.count n))
  | .u32 => do pure (.u32 (← Read.u32))
  | .u64 => do pure (.u64 (← Read.u64))
  | .s64 => do pure (.s64 (← Read.s64))
  | .name => do pure (.name (← Read.name))
  | .u32le => do pure (.u32le (← Read.u32le))
  | .f64le => do pure (.f64le (← Read.f64le))

/-! ## Drafts -/

/-- Bytes being written, with the places reserved for words that are not known yet. -/
structure Draft where
  bytes : Text
  reserved : List Nat
deriving DecidableEq, Repr

namespace Draft

/-- Nothing written. -/
def empty : Draft := ⟨[], []⟩

/-- Writes an item. -/
def put (d : Draft) (item : Item) : Draft := { d with bytes := d.bytes ++ item.write }

/-- Leaves room for four bytes. -/
def reserve (d : Draft) : Draft := ⟨d.bytes ++ [0, 0, 0, 0], d.reserved ++ [d.bytes.length]⟩

/-- Fills the `i`-th reserved word. -/
def fill (d : Draft) (i : Nat) (n : UInt32) : Draft :=
  match d.reserved[i]? with
  | some place => { d with bytes := Write.patch d.bytes place n }
  | none => d

end Draft

end Transpiler.Wire
