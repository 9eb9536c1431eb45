import Transpiler.Text.Basic

/-!
# Characters of a byte text

A byte text is read as a sequence of runes: a rune is either a character whose UTF-8 encoding
stands at that place, or a single byte that starts no well-formed encoding. Writing the runes back
gives the text, so the reading loses nothing, and a text is well-formed UTF-8 exactly when no rune
is a stray byte.
-/

namespace Transpiler

/-- One step in reading a byte text as characters. -/
inductive Rune where
  /-- A character whose encoding stands in the text. -/
  | char (c : Char)
  /-- A byte that begins no well-formed encoding. -/
  | stray (b : UInt8)
deriving DecidableEq, Repr

namespace Rune

/-- The bytes it came from. -/
def bytes : Rune → Text
  | .char c => String.utf8EncodeChar c
  | .stray b => [b]

/-- The character a rune is shown as: a stray byte shows as the replacement character. -/
def shown : Rune → Char
  | .char c => c
  | .stray _ => '\ufffd'

/-- Whether it is a stray byte. -/
def isStray : Rune → Bool
  | .char _ => false
  | .stray _ => true

end Rune

namespace Text

/-- A byte after the first. -/
def isContinuation (b : UInt8) : Bool := 0x80 ≤ b && b < 0xC0

/-- The character with code point `n`, if there is one. -/
def char? (n : Nat) : Option Char :=
  if h : n.isValidChar then some (Char.ofNatAux n h) else none

/-- The bits of a later byte. -/
def payload (b : UInt8) : Nat := b.toNat % 64

/-- The character whose encoding starts with `b` and goes on in `rest`, with the number of bytes
taken from `rest`. Overlong encodings, surrogates and code points past the last are refused. -/
def charAt? (b : UInt8) (rest : Text) : Option (Char × Nat) :=
  if b < 0x80 then (char? b.toNat).map (·, 0)
  else if b < 0xC2 then none
  else if b < 0xE0 then
    match rest with
    | b1 :: _ =>
      if isContinuation b1 then (char? (b.toNat % 32 * 64 + payload b1)).map (·, 1) else none
    | _ => none
  else if b < 0xF0 then
    match rest with
    | b1 :: b2 :: _ =>
      if isContinuation b1 && isContinuation b2 then
        let n := b.toNat % 16 * 4096 + payload b1 * 64 + payload b2
        if n < 0x800 then none else (char? n).map (·, 2)
      else none
    | _ => none
  else if b < 0xF5 then
    match rest with
    | b1 :: b2 :: b3 :: _ =>
      if isContinuation b1 && isContinuation b2 && isContinuation b3 then
        let n := b.toNat % 8 * 262144 + payload b1 * 4096 + payload b2 * 64 + payload b3
        if n < 0x10000 then none else (char? n).map (·, 3)
      else none
    | _ => none
  else none

/-- The runes of a text. -/
def runes : Text → List Rune
  | [] => []
  | b :: rest =>
    match charAt? b rest with
    | some (c, more) => .char c :: runes (rest.drop more)
    | none => .stray b :: runes rest
termination_by t => t.length
decreasing_by
  · rw [List.length_drop, List.length_cons]
    omega
  · exact Nat.lt_succ_self _

/-- The text of runes. -/
def ofRunes (rs : List Rune) : Text := rs.flatMap Rune.bytes

/-- The text of characters. -/
def ofChars (cs : List Char) : Text := cs.flatMap String.utf8EncodeChar

/-- Whether a text is UTF-8. -/
def isUtf8 (t : Text) : Bool := (runes t).all fun r => !r.isStray

/-- The text with each stray byte replaced by the replacement character. -/
def shown (t : Text) : Text := ofChars ((runes t).map Rune.shown)

/-- Writes runes with one replacement character for each run of stray bytes; the flag says that the
rune before the first was a stray byte. -/
def repairRunes : Bool → List Rune → Text
  | _, [] => []
  | _, .char c :: rest => String.utf8EncodeChar c ++ repairRunes false rest
  | true, .stray _ :: rest => repairRunes true rest
  | false, .stray _ :: rest => String.utf8EncodeChar '\ufffd' ++ repairRunes true rest

/-- The text with each run of stray bytes replaced by one replacement character. -/
def repaired (t : Text) : Text := repairRunes false (runes t)

end Text

end Transpiler
