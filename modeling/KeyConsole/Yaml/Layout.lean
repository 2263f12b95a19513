import KeyConsole.Yaml.Plain
import KeyConsole.Yaml.Property
import KeyConsole.Yaml.Quotes

/-!
# Yaml.Layout: a source into tokens

Outside of brackets the structure of a source is in its indentation, and a layout makes tokens of it.  A key
of a mapping is seen as such only at the colon behind it: the layout remembers where a key may have begun, and
puts its token there.  Such a key is on one line and of at most 1024 characters.
-/

namespace KeyConsole.Yaml

/-- A place where a key may have begun. -/
structure PendingKey where
  /-- The number of tokens before it. -/
  position : Nat
  spot : Spot
  /-- Only a key can stand there. -/
  required : Bool
  deriving Repr

/-- The number of characters that a key may have. -/
def longestKey : Nat := 1024

/-- The key lies too far back for a colon at a spot. -/
def PendingKey.isStale (k : PendingKey) (s : Spot) : Bool :=
  k.spot.line < s.line || k.spot.index + longestKey < s.index

/-- The tokens so far, and what decides about the next one. -/
structure Layout where
  spot : Spot
  /-- More than the number of characters that are left. -/
  bound : Nat
  /-- The tokens, the last one first. -/
  tokens : List Token := []
  count : Nat := 0
  /-- The column of the innermost block, and those of the blocks around it. -/
  indent : Int := -1
  outerIndents : List Int := []
  /-- Where a key may have begun, within the innermost brackets and within those around them. -/
  pending : Option PendingKey := none
  outerPending : List (Option PendingKey) := []
  /-- A key may begin here. -/
  keyAllowed : Bool := true

namespace Layout

/-- Within brackets. -/
def inFlow (s : Layout) : Bool := !s.outerPending.isEmpty

/-- Add a token. -/
def emit (s : Layout) (t : Token) : Layout := { s with tokens := t :: s.tokens, count := s.count + 1 }

/-- Put a token behind the first `position` ones. -/
def emitAt (s : Layout) (position : Nat) (t : Token) : Layout :=
  let after := s.count - position
  { s with tokens := s.tokens.take after ++ t :: s.tokens.drop after, count := s.count + 1 }

/-- Go on at another spot. -/
def moveTo (s : Layout) (spot : Spot) : Layout := { s with spot }

/-- Leave the blocks that are indented further than a column. -/
def unroll (column : Int) (s : Layout) : Layout :=
  if s.inFlow then s else leave s.indent s.outerIndents s
where
  leave : Int → List Int → Layout → Layout
    | indent, [], s => { s with indent, outerIndents := [] }
    | indent, outer :: rest, s =>
      if column < indent then leave outer rest (s.emit .blockEnd)
      else { s with indent, outerIndents := outer :: rest }

/-- Enter a block at a column, if it is indented further; its start stands behind the first `position`
tokens. -/
def roll (s : Layout) (column position : Nat) (start : Token) : Layout :=
  if s.inFlow || (column : Int) ≤ s.indent then s
  else
    { s with indent := column, outerIndents := s.indent :: s.outerIndents }.emitAt position start

/-- Give up on the key that may have begun; it must not be required. -/
def dropKey (s : Layout) : Option Layout :=
  if s.pending.any (·.required) then none else some { s with pending := none }

/-- Note that a key may begin here. -/
def noteKey (s : Layout) : Option Layout :=
  if !s.keyAllowed then some s
  else do
    let s ← s.dropKey
    let required := !s.inFlow && s.indent = s.spot.column
    return { s with pending := some ⟨s.count, s.spot, required⟩ }

/-- Give up on the keys that lie too far back; none of them must be required. -/
def dropStaleKeys (s : Layout) : Option Layout :=
  let stale (k : Option PendingKey) : Bool := k.any (·.isStale s.spot)
  let fresh (k : Option PendingKey) : Option PendingKey := if stale k then none else k
  if (s.pending :: s.outerPending).any fun k => stale k && k.any (·.required) then none
  else some { s with pending := fresh s.pending, outerPending := s.outerPending.map fresh }

/-- The mark of the byte order, which may stand at the start of a line. -/
def byteOrderMark : Char := '\ufeff'

/-- Skip blanks, comments and line ends, at most as many as the number says.  Where a key may begin, a tab is
no blank. -/
def skipGaps : Nat → Layout → Layout
  | 0, s => s
  | fuel + 1, s =>
    let marked := s.spot.column = 0 && s.spot.peek = some byteOrderMark
    let spot := if marked then s.spot.next else s.spot
    let spot := spot.skipRun fun c => c = ' ' || (c = '\t' && (s.inFlow || !s.keyAllowed))
    let spot := if spot.peek = some '#' then spot.skipRun (!isBreak ·) else spot
    if spot.peek.any isBreak then
      skipGaps fuel { s with spot := spot.next, keyAllowed := s.keyAllowed || !s.inFlow }
    else s.moveTo spot

/-- Skip what stands between tokens. -/
def toToken (s : Layout) : Layout := skipGaps s.bound s

/-- Leave all blocks. -/
def leaveBlocks (s : Layout) : Option Layout :=
  (s.unroll (-1)).dropKey.map fun s => { s with keyAllowed := false }

/-- Read a directive. -/
def directive (s : Layout) : Option Layout := do
  let s ← s.leaveBlocks
  let (t, spot) ← directive? s.spot
  return (s.emit t).moveTo spot

/-- Read a marker of documents. -/
def documentMarker (t : Token) (s : Layout) : Option Layout :=
  s.leaveBlocks.map fun s => (s.emit t).moveTo (s.spot.skip 3)

/-- Read an opening bracket. -/
def openBracket (t : Token) (s : Layout) : Option Layout := do
  let s ← s.noteKey
  let s := { s with outerPending := s.pending :: s.outerPending, pending := none, keyAllowed := true }
  return (s.emit t).moveTo s.spot.next

/-- Read a closing bracket. -/
def closeBracket (t : Token) (s : Layout) : Option Layout := do
  let s ← s.dropKey
  let s :=
    match s.outerPending with
    | [] => s
    | k :: rest => { s with pending := k, outerPending := rest }
  return ({ s with keyAllowed := false }.emit t).moveTo s.spot.next

/-- Read a comma within brackets. -/
def comma (s : Layout) : Option Layout :=
  s.dropKey.map fun s => ({ s with keyAllowed := true }.emit .flowEntry).moveTo s.spot.next

/-- Begin an item or a key in a block; outside of brackets one must be allowed here. -/
def enter (s : Layout) (start : Token) : Option Layout :=
  if s.inFlow then some s else if s.keyAllowed then some (s.roll s.spot.column s.count start) else none

/-- Read the sign of an item. -/
def item (s : Layout) : Option Layout := do
  let s ← s.enter .blockSequenceStart
  let s ← s.dropKey
  return ({ s with keyAllowed := true }.emit .blockEntry).moveTo s.spot.next

/-- Read the sign of a key. -/
def keySign (s : Layout) : Option Layout := do
  let s ← s.enter .blockMappingStart
  let s ← s.dropKey
  return ({ s with keyAllowed := !s.inFlow }.emit .key).moveTo s.spot.next

/-- Read a colon.  The key before it may have begun at the place that was noted. -/
def colon (s : Layout) : Option Layout := do
  let s ←
    match s.pending with
    | some k =>
      let s := (s.emitAt k.position .key).roll k.spot.column k.position .blockMappingStart
      some { s with pending := none, keyAllowed := false }
    | none => (s.enter .blockMappingStart).map fun s => { s with keyAllowed := !s.inFlow }
  return (s.emit .value).moveTo s.spot.next

/-- Read a token that may be a key, or be part of one. -/
def keyLike (s : Layout) (read : Spot → Option (Token × Spot)) : Option Layout := do
  let s ← s.noteKey
  let (t, spot) ← read s.spot
  return ({ s with keyAllowed := false }.emit t).moveTo spot

/-- Read an anchor, or an alias. -/
def anchor (make : String → Token) (s : Layout) : Option Layout :=
  s.keyLike fun spot => (anchorName? spot.next).map fun (name, spot) => (make name, spot)

/-- Read a text in quotes. -/
def quoted (double : Bool) (s : Layout) : Option Layout :=
  s.keyLike fun spot => (quoted? s.bound double spot.next).map fun (t, spot) =>
    (.text (if double then .doubleQuoted else .singleQuoted) t, spot)

/-- Read a block text. -/
def block (literal : Bool) (s : Layout) : Option Layout := do
  let s ← s.dropKey
  let (t, spot) ← block? s.bound literal s.indent s.spot.next
  return ({ s with keyAllowed := true }.emit (.text (if literal then .literal else .folded) t)).moveTo spot

/-- Read a plain text. -/
def plain (s : Layout) : Option Layout := do
  let s ← s.noteKey
  let p ← plain? s.bound s.inFlow (s.indent + 1) s.spot
  return ({ s with keyAllowed := p.lineEnded }.emit (.text .plain p.text)).moveTo p.spot

/-- A character that no plain text begins with. -/
def isIndicator (c : Char) : Bool := "-?:,[]\x7b\x7d#&*!|>'\"%@`".toList.contains c

/-- A plain text may begin with a character, another one following it. -/
def beginsPlain (inFlow : Bool) (c : Char) (next : Option Char) : Bool :=
  !(isGap c || isIndicator c) || (c = '-' && !next.any isSpacing)
    || (!inFlow && (c = '?' || c = ':') && !isGapOrEnd next)

/-- Read the token that begins with a character. -/
def token (s : Layout) (c : Char) : Option Layout :=
  let next := s.spot.ahead 1
  let apart := isGapOrEnd next
  if s.spot.column = 0 && c = '%' then s.directive
  else if s.spot.atDocumentStart then s.documentMarker .documentStart
  else if s.spot.atDocumentEnd then s.documentMarker .documentEnd
  else if c = '[' then s.openBracket .flowSequenceStart
  else if c = '{' then s.openBracket .flowMappingStart
  else if c = ']' then s.closeBracket .flowSequenceEnd
  else if c = '}' then s.closeBracket .flowMappingEnd
  else if c = ',' then s.comma
  else if c = '-' && apart then s.item
  else if c = '?' && (s.inFlow || apart) then s.keySign
  else if c = ':' && (s.inFlow || apart) then s.colon
  else if c = '*' then s.anchor .alias
  else if c = '&' then s.anchor .anchor
  else if c = '!' then s.keyLike (tag? s.inFlow)
  else if c = '|' && !s.inFlow then s.block true
  else if c = '>' && !s.inFlow then s.block false
  else if c = '\'' then s.quoted false
  else if c = '"' then s.quoted true
  else if beginsPlain s.inFlow c next then s.plain
  else none

/-- Read the tokens to the end, at most as many as the number says. -/
def run : Nat → Layout → Option (List Token)
  | 0, _ => none
  | fuel + 1, s => do
    let s ← s.toToken.dropStaleKeys
    let s := s.unroll s.spot.column
    match s.spot.peek with
    | none => s.leaveBlocks.map fun s => s.tokens.reverse
    | some c => run fuel (← s.token c)

end Layout

/-- The tokens of a source, if it has any layout. -/
def tokens? (source : String) : Option (List Token) :=
  (start? source).bind fun spot =>
    let bound := spot.rest.length + 1
    Layout.run (bound + 1) { spot, bound }

end KeyConsole.Yaml
