import Transpiler.Source.Address

/-!
# Locations as URLs

The parts of a URL that decide where a module comes from: its scheme, its host and its path, with the
escapes of the last two resolved. A malformed URL is refused with the reason.
-/

namespace Transpiler

/-- Why a URL is refused. -/
inductive UrlFault where
  | controlCharacter
  | missingScheme
  | colonInFirstSegment
  | invalidPort (port : Text)
  | missingBracket
  | invalidLiteral
  | invalidHost (fault : AddressFault)
  | invalidUserInfo
  | invalidEscape (escape : Text)
  | invalidHostCharacter (b : UInt8)
deriving DecidableEq, Repr

/-- The fault in words. -/
def UrlFault.message : UrlFault → Text
  | .controlCharacter => "net/url: invalid control character in URL"
  | .missingScheme => "missing protocol scheme"
  | .colonInFirstSegment => "first path segment in URL cannot contain colon"
  | .invalidPort port => "invalid port " ++ Text.quoted port ++ " after host"
  | .missingBracket => "missing ']' in host"
  | .invalidLiteral => "invalid IP-literal"
  | .invalidHost fault => "invalid host: " ++ fault.message
  | .invalidUserInfo => "net/url: invalid userinfo"
  | .invalidEscape escape => "invalid URL escape " ++ Text.quoted escape
  | .invalidHostCharacter b => "invalid character " ++ Text.quoted [b] ++ " in host name"

/-- A URL, taken apart. -/
structure Url where
  scheme : Text
  host : Text
  path : Text
deriving DecidableEq, Repr

namespace Url

/-- A letter. -/
def isAlpha (b : UInt8) : Bool :=
  ('a' ≤ b && b ≤ 'z') || ('A' ≤ b && b ≤ 'Z')

/-- A letter or digit. -/
def isAlnum (b : UInt8) : Bool := isAlpha b || Address.isDigit b

/-- In small letters. -/
def lower (b : UInt8) : UInt8 := if 'A' ≤ b && b ≤ 'Z' then b + 32 else b

/-- Whether a byte stands among the characters of a string. -/
def among (chars : String) (b : UInt8) : Bool := (Text.ofString chars).contains b

/-- Where an escaped text stands; hosts and zones restrict what may be written and escaped. -/
inductive Place where
  | host
  | zone
  | other
deriving DecidableEq, Repr

/-- A byte a host may hold. -/
def isHostByte (b : UInt8) : Bool :=
  isAlnum b || among "!$&'()*+,;=:[]<>\"-_.~" b || 128 ≤ b

/-- Whether a byte may be escaped here. -/
def escapeAllowed (place : Place) (high low : Nat) : Bool :=
  match place with
  | .other => true
  | .host => high ≥ 8 || (high == 2 && low == 5)
  | .zone =>
    let b := (16 * high + low).toUInt8
    (high == 2 && low == 5) || b == ' ' || isAlnum b
      || among "!$&'()*+,;=:[]<>\"-_.~" b

/-- Resolves the escapes. -/
def unescape (place : Place) : Text → Except UrlFault Text
  | [] => .ok []
  | [b] => one b []
  | [b, c] => do
    let head ← one b [c]
    let tail ← one c []
    pure (head ++ tail)
  | b :: c :: d :: rest =>
    if b == '%' then
      match Address.hexValue? c, Address.hexValue? d with
      | some high, some low =>
        if escapeAllowed place high low then do
          let tail ← unescape place rest
          pure ((16 * high + low).toUInt8 :: tail)
        else .error (.invalidEscape [b, c, d])
      | _, _ => .error (.invalidEscape [b, c, d])
    else do
      let head ← one b (c :: d :: rest)
      let tail ← unescape place (c :: d :: rest)
      pure (head ++ tail)
where
  /-- A byte that begins no complete escape. -/
  one (b : UInt8) (rest : Text) : Except UrlFault Text :=
    if b == '%' then .error (.invalidEscape (b :: rest))
    else if place != .other && !isHostByte b then .error (.invalidHostCharacter b)
    else .ok [b]

/-- The scheme in front of a colon, if what stands there can be one, and the rest. -/
def splitScheme (t : Text) : Except UrlFault (Text × Text) :=
  let isSchemeByte := fun b => isAlnum b || among "+-." b
  let head := t.takeWhile isSchemeByte
  match t.dropWhile isSchemeByte with
  | [] => .ok ([], t)
  | c :: rest =>
    if c != ':' then .ok ([], t)
    else match head with
      | [] => .error .missingScheme
      | b :: _ => if isAlpha b then .ok (head, rest) else .ok ([], t)

/-- Whether a text is empty or a colon and digits. -/
def isPort (t : Text) : Bool :=
  match t with
  | [] => true
  | c :: digits => c == ':' && digits.all Address.isDigit

/-- The part of a text up to the last occurrence of a byte, and the part after it. -/
def cutLast (b : UInt8) (t : Text) : Option (Text × Text) :=
  match Text.cut b t.reverse with
  | (_, none) => none
  | (after, some before) => some (before.reverse, after.reverse)

/-- A bracketed host: an address, perhaps with a zone, and perhaps a port. -/
def bracketed (inside port : Text) : Except UrlFault Text := do
  if !isPort port then throw (.invalidPort port)
  let zoneAt := zoneStart inside
  let address ← unescape .host (inside.take zoneAt)
  let zone ← unescape .zone (inside.drop zoneAt)
  match Address.check (address ++ zone) with
  | .error fault => throw (.invalidHost fault)
  | .ok false => throw .invalidLiteral
  | .ok true => pure ("[" ++ (address ++ zone) ++ "]" ++ port)
where
  /-- Where the escaped percent sign of a zone starts. -/
  zoneStart : Text → Nat
    | [] => 0
    | b :: rest => if ("%25" : Text).isPrefixOf (b :: rest) then 0 else zoneStart rest + 1

/-- A host, perhaps with a port. -/
def readHost (t : Text) : Except UrlFault Text :=
  match cutLast '[' t with
  | some (before, inside) =>
    if !before.isEmpty then .error .invalidLiteral
    else match cutLast ']' inside with
      | none => .error .missingBracket
      | some (address, port) => bracketed address port
  | none =>
    match cutLast ':' t with
    | some (_, digits) =>
      if digits.all Address.isDigit then unescape .host t
      else .error (.invalidPort (':' :: digits))
    | none => unescape .host t

/-- Whether a byte may stand in front of the `@` of an authority. -/
def isUserByte (b : UInt8) : Bool := isAlnum b || among "-._:~!$&'()*+,;=%@" b

/-- The host of an authority. The user in front of it has to be well formed. -/
def readAuthority (t : Text) : Except UrlFault Text :=
  match cutLast '@' t with
  | none => readHost t
  | some (user, rest) => do
    let h ← readHost rest
    if !user.all isUserByte then throw .invalidUserInfo
    let _ ← unescape .other (user.cut ':').1
    let _ ← unescape .other ((user.cut ':').2.getD [])
    pure h

/-- The URL without its fragment. -/
def ofText (t : Text) : Except UrlFault Url := do
  if t.any fun b => b < 32 || b == 127 then throw .controlCharacter
  if t == "*" then return ⟨[], [], "*"⟩
  let (scheme, rest) ← splitScheme t
  let scheme := scheme.map lower
  let rest := (rest.cut '?').1
  if !("/" : Text).isPrefixOf rest then
    if !scheme.isEmpty then return ⟨scheme, [], []⟩
    if (rest.cut '/').1.contains ':' then throw .colonInFirstSegment
  if ("//" : Text).isPrefixOf rest && (!scheme.isEmpty || !("///" : Text).isPrefixOf rest) then
    let inside := (rest.drop 2).takeWhile (· != '/'.toUInt8)
    let h ← readAuthority inside
    let path ← unescape .other ((rest.drop 2).dropWhile (· != '/'.toUInt8))
    return ⟨scheme, h, path⟩
  let path ← unescape .other rest
  return ⟨scheme, [], path⟩

/-- The refusal in words. -/
def faultText (t : Text) (fault : UrlFault) : Text :=
  "parse " ++ Text.quoted t ++ ": " ++ fault.message

/-- The parts of a URL, its fragment checked and dropped, or the words for what is wrong with it. -/
def parse (t : Text) : Except Text Url :=
  let (whole, fragment) := t.cut '#'
  match ofText whole with
  | .error fault => .error (faultText whole fault)
  | .ok url =>
    match unescape .other (fragment.getD []) with
    | .error fault => .error (faultText t fault)
    | .ok _ => .ok url

end Url

end Transpiler
