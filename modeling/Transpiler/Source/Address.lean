import Transpiler.Text.Quoted

/-!
# Bracketed internet addresses

A host in square brackets has to be an internet address of the sixth version: up to eight groups of
hexadecimal digits between colons, one run of zero groups left out as `::`, the last two groups possibly
written as four decimal numbers, and perhaps a zone after a percent sign.
-/

namespace Transpiler

/-- Why an address is refused. -/
structure AddressFault where
  text : Text
  reason : Text
  /-- What was left to read, when that helps. -/
  rest : Text
deriving DecidableEq, Repr

/-- The fault in words. -/
def AddressFault.message (f : AddressFault) : Text :=
  let place : Text := if f.rest.isEmpty then [] else " (at " ++ Text.quoted f.rest ++ ")"
  "ParseAddr(" ++ Text.quoted f.text ++ "): " ++ f.reason ++ place

namespace Address

/-- The value of a hex digit. -/
def hexValue? (b : UInt8) : Option Nat :=
  let n := b.toNat
  if 48 ≤ n ∧ n ≤ 57 then some (n - 48)
  else if 97 ≤ n ∧ n ≤ 102 then some (n - 87)
  else if 65 ≤ n ∧ n ≤ 70 then some (n - 55)
  else none

/-- A decimal digit. -/
def isDigit (b : UInt8) : Bool := '0' ≤ b && b ≤ '9'

/-- The progress through four decimal numbers: how many are complete, the value and length of the one
being read, and whether a number may start here. -/
structure Quad where
  complete : Nat
  value : Nat
  digits : Nat

/-- Checks four decimal numbers with points between them. -/
def decimals (whole : Text) (q : Quad) : Text → Except AddressFault Unit
  | [] => if q.complete < 3 then .error ⟨whole, "IPv4 address too short", []⟩ else .ok ()
  | b :: rest =>
    if isDigit b then
      if q.digits = 1 ∧ q.value = 0 then
        .error ⟨whole, "IPv4 field has octet with leading zero", []⟩
      else
        let value := q.value * 10 + (b.toNat - 48)
        if value > 255 then .error ⟨whole, "IPv4 field has value >255", []⟩
        else decimals whole ⟨q.complete, value, q.digits + 1⟩ rest
    else if b == '.' then
      if q.digits = 0 ∨ rest = [] then
        .error ⟨whole, "IPv4 field must have at least one digit", b :: rest⟩
      else if q.complete = 3 then .error ⟨whole, "IPv4 address too long", []⟩
      else decimals whole ⟨q.complete + 1, 0, 0⟩ rest
    else .error ⟨whole, "unexpected character", b :: rest⟩

/-- The hexadecimal digits at the front of a text, and what follows them. -/
def group (t : Text) : Text × Text :=
  (t.takeWhile fun b => (hexValue? b).isSome, t.dropWhile fun b => (hexValue? b).isSome)

/-- Checks the groups from the `i`-th byte of the address on; `ellipsis` says that zeros were left out.
There is room for eight groups, so eight rounds are enough. -/
def groups (whole : Text) : (rounds i : Nat) → (ellipsis : Bool) → Text → Except AddressFault Unit
  | 0, _, ellipsis, t => finish 16 ellipsis t
  | rounds + 1, i, ellipsis, t =>
    let (digits, after) := group t
    if digits.length > 4 then
      .error ⟨whole, "each group must have 4 or less digits", t⟩
    else if digits.isEmpty then
      .error ⟨whole, "each colon-separated field must have at least one digit", t⟩
    else match after with
      | [] => finish (i + 2) ellipsis []
      | c :: rest =>
        if c == '.' then
          if !ellipsis && i != 12 then
            .error ⟨whole, "embedded IPv4 address must replace the final 2 fields of the address", t⟩
          else if i + 4 > 16 then
            .error ⟨whole, "too many hex fields to fit an embedded IPv4 at the end of the address", t⟩
          else do
            decimals whole ⟨0, 0, 0⟩ t
            finish (i + 4) ellipsis []
        else if c != ':' then
          .error ⟨whole, "unexpected character, want colon", after⟩
        else match rest with
          | [] => .error ⟨whole, "colon must be followed by more characters", after⟩
          | d :: more =>
            if d == ':' then
              if ellipsis then .error ⟨whole, "multiple :: in address", rest⟩
              else if more.isEmpty then finish (i + 2) true []
              else groups whole rounds (i + 2) true more
            else groups whole rounds (i + 2) ellipsis rest
where
  /-- Checks the end: everything was read, and exactly the missing zeros were left out. -/
  finish (i : Nat) (ellipsis : Bool) (t : Text) : Except AddressFault Unit :=
    if !t.isEmpty then .error ⟨whole, "trailing garbage after address", t⟩
    else if i < 16 then
      if ellipsis then .ok () else .error ⟨whole, "address string too short", []⟩
    else if ellipsis then
      .error ⟨whole, "the :: must expand to at least one field of zeros", []⟩
    else .ok ()

/-- Checks an address with colons, after its zone has been cut off. -/
def sixth (whole t : Text) : Except AddressFault Unit :=
  if ("::" : Text).isPrefixOf t then
    if t.length = 2 then .ok () else groups whole 8 0 true (t.drop 2)
  else groups whole 8 0 false t

/-- Checks that a text is an address, and says whether it is one of the sixth version. -/
def check (t : Text) : Except AddressFault Bool :=
  match t.find? fun b => b == '.'.toUInt8 || b == ':'.toUInt8 || b == '%'.toUInt8 with
  | none => .error ⟨t, "unable to parse IP", []⟩
  | some b =>
    if b == '.' then do
      decimals t ⟨0, 0, 0⟩ t
      pure false
    else if b == ':' then
      match t.cut '%' with
      | (_, some []) => .error ⟨t, "zone must be a non-empty string", []⟩
      | (address, _) => do
        sixth t address
        pure true
    else .error ⟨t, "missing IPv6 address", []⟩

end Address

end Transpiler
