import KeyConsole.Yaml.Quotes

/-!
# Yaml.Tag: the kinds of nodes

A tag says of what kind a node is.  It is a row of bytes.  In a source it is written with some of the
characters of ASCII and with escapes, which are a percent sign and two hexadecimal digits each: the escapes of
a character stand together, and its first byte says how many there are.
-/

namespace KeyConsole.Yaml

/-- A tag by its bytes, which need not be a text. -/
abbrev Tag := List UInt8

namespace Tag

/-- The bytes of a text. -/
def ofText (s : String) : Tag := s.toUTF8.toList

/-- The tag of one of the kinds that are known everywhere. -/
def common (kind : String) : Tag := ofText ("tag:yaml.org,2002:" ++ kind)

/-- The tag that names no kind. -/
def bare : Tag := ofText "!"

/-- The kind that a tag names if it is not one of those known everywhere. -/
def ownKind? : Tag → Option String
  | 0x21 :: kind => String.fromUTF8? ⟨kind.toArray⟩
  | _ => none

/-- The number of bytes of a character, told by the first; nothing if no character begins with it. -/
def width? (first : Nat) : Option Nat :=
  if first < 0x80 then some 1
  else if first < 0xc0 then none
  else if first < 0xe0 then some 2
  else if first < 0xf0 then some 3
  else if first < 0xf8 then some 4
  else none

/-- The number of bytes that are missing from an escaped character behind one more byte. -/
def missing? (before byte : Nat) : Option Nat :=
  match before with
  | 0 => (width? byte).map (· - 1)
  | n + 1 => if 0x80 ≤ byte && byte < 0xc0 then some n else none

/-- Read characters that fit, and escapes.  Answers the bytes and how many characters they take; `missing`
bytes of a character have not been read yet. -/
def read? (fits : Char → Bool) : (missing : Nat) → List Char → Option (Tag × Nat)
  | missing, '%' :: high :: low :: rest => do
    let byte := (← hexDigit? high) * 16 + (← hexDigit? low)
    let (bytes, n) ← read? fits (← missing? missing byte) rest
    return (byte.toUInt8 :: bytes, n + 3)
  | 0, c :: rest =>
    if c = '%' then none
    else if fits c then (read? fits 0 rest).map fun (bytes, n) => (c.toNat.toUInt8 :: bytes, n + 1)
    else some ([], 0)
  | 0, [] => some ([], 0)
  | _ + 1, _ => none

/-- The bytes before the first zero; what follows it does not count. -/
def beforeZero (t : Tag) : Tag := t.takeWhile (· ≠ 0)

end Tag

end KeyConsole.Yaml
