import KeyConsole.Yaml.Block
import KeyConsole.Yaml.Token

/-!
# Yaml.Property: anchors, tags and directives

An anchor names a node, a tag says what kind of node it is, and directives stand before a document.
-/

namespace KeyConsole.Yaml

/-- A letter, a digit, an underscore or a hyphen. -/
def isWordChar (c : Char) : Bool := c.isAlphanum || c = '_' || c = '-'

/-- A character of a tag behind its handle. -/
def isTagChar (c : Char) : Bool := isWordChar c || ";/?:@&=+$.!~*'()".toList.contains c

/-- A character of a tag that is written out in angle brackets. -/
def isVerbatimChar (c : Char) : Bool := isTagChar c || c = ',' || c = '[' || c = ']'

/-- A character that may follow the name of an anchor. -/
def endsAnchor (c : Option Char) : Bool :=
  isGapOrEnd c || c.any fun c => "?:,]\x7d%@`".toList.contains c

/-- Read the name of an anchor, from behind its sign. -/
def anchorName? (s : Spot) : Option (String × Spot) :=
  let name := s.run isWordChar
  let s := s.skip name.length
  if name.isEmpty || !endsAnchor s.peek then none else some (String.ofList name, s)

/-- Read what fits of a tag. -/
def tagBytes? (fits : Char → Bool) (s : Spot) : Option (Tag × Spot) :=
  (Tag.read? fits 0 s.rest).map fun (bytes, n) => (bytes.beforeZero, s.skip n)

/-- Read what fits of a tag, which is at least one character. -/
def someTagBytes? (fits : Char → Bool) (s : Spot) : Option (Tag × Spot) := do
  let (bytes, after) ← tagBytes? fits s
  if after.index = s.index then none else some (bytes, after)

/-- Read a tag, with its handle apart. -/
def tagParts? (s : Spot) : Option ((String × Tag) × Spot) :=
  if s.ahead 1 = some '<' then do
    let (name, s) ← someTagBytes? isVerbatimChar (s.skip 2)
    if s.peek ≠ some '>' then none else some (("", name), s.next)
  else
    let s := s.next
    let word := s.run isWordChar
    let s := s.skip word.length
    if s.peek = some '!' then do
      let (suffix, s) ← someTagBytes? isTagChar s.next
      return ((String.ofList ('!' :: word ++ ['!']), suffix), s)
    else do
      let (suffix, s) ← tagBytes? isTagChar s
      let suffix := Tag.ofText (String.ofList word) ++ suffix
      return (if suffix.isEmpty then ("", Tag.bare) else ("!", suffix), s)

/-- Read a tag; a gap follows it, or a comma within brackets. -/
def tag? (inFlow : Bool) (s : Spot) : Option (Token × Spot) := do
  let ((handle, suffix), s) ← tagParts? s
  if isGapOrEnd s.peek || (inFlow && s.peek = some ',') then some (.tag handle suffix, s) else none

/-- Read a number of at most nine digits. -/
def versionNumber? (s : Spot) : Option (Nat × Spot) :=
  let digits := s.run Char.isDigit
  if digits.isEmpty || digits.length > 9 then none
  else some (digits.foldl (fun n c => n * 10 + (c.toNat - '0'.toNat)) 0, s.skip digits.length)

/-- Read the version behind its directive. -/
def version? (s : Spot) : Option (Token × Spot) := do
  let (major, s) ← versionNumber? (s.skipRun isSpacing)
  if s.peek ≠ some '.' then none
  else
    let (minor, s) ← versionNumber? s.next
    return (.version major minor, s)

/-- Read a handle and what it stands for behind their directive. -/
def tagHandle? (s : Spot) : Option (Token × Spot) :=
  let s := s.skipRun isSpacing
  if s.peek ≠ some '!' then none
  else
    let s := s.next
    let word := s.run isWordChar
    let s := s.skip word.length
    let closed := s.peek = some '!'
    if !closed && !word.isEmpty then none
    else
      let handle := '!' :: (if closed then word ++ ['!'] else [])
      let s := if closed then s.next else s
      if !s.peek.any isSpacing then none
      else do
        let (start, s) ← someTagBytes? isVerbatimChar (s.skipRun isSpacing)
        if isGapOrEnd s.peek then some (.tagHandle (String.ofList handle) start, s) else none

/-- Read a directive, from its sign to the end of its line. -/
def directive? (s : Spot) : Option (Token × Spot) := do
  let s := s.next
  let name := s.run isWordChar
  let s := s.skip name.length
  if !isGapOrEnd s.peek then none
  else
    let (t, s) ←
      match String.ofList name with
      | "YAML" => version? s
      | "TAG" => tagHandle? s
      | _ => none
    let s := skipComment s
    if s.peek.all isBreak then return (t, skipBreak s) else none

end KeyConsole.Yaml
